import YamlLayout.Proofs.Escape.Decoding
import YamlLayout.Proofs.Formatter
import YamlLayout.Proofs.Text.Valid

/-! A document that reads as UTF-8 still does at every step of a run, as long as the reformat
keeps to it: cuts are made at ASCII alone, and all that is put in reads by itself. -/
namespace YamlLayout
open Lines LineBreaks Utf8

theorem stripReturns_eq_flatMap (c : Bytes) :
    stripReturns c = c.flatMap fun b => if b = carriageReturn then [] else [b] := by
  induction c with
  | nil => rfl
  | cons b c ih =>
    rw [List.flatMap_cons, ← ih]
    by_cases hb : b = carriageReturn
    · simp [stripReturns, hb]
    · simp [stripReturns, hb]

theorem valid_stripReturns {c : Bytes} (h : Valid c) : Valid (stripReturns c) := by
  rw [stripReturns_eq_flatMap]
  refine h.flatMap_bytes fun b => ?_
  by_cases hb : b = carriageReturn
  · exact Or.inr ⟨by rw [hb]; decide, by rw [if_pos hb]; exact valid_nil⟩
  · exact Or.inl (if_neg hb)

theorem valid_insertReturns {c : Bytes} (h : Valid c) : Valid (insertReturns c) := by
  refine h.flatMap_bytes fun b => ?_
  by_cases hb : b = lineFeed
  · exact Or.inr ⟨by rw [hb]; decide, by rw [if_pos hb, hb]; decide⟩
  · exact Or.inl (if_neg hb)

theorem valid_write (e : LineEnding) {c : Bytes} (h : Valid c) : Valid (e.write c) := by
  cases e with
  | lf => exact h
  | crlf => exact valid_insertReturns h

theorem valid_separator (e : LineEnding) : Valid e.separator := by cases e <;> decide

theorem valid_of_mem_cut {c l : Bytes} (h : Valid c) (hl : l ∈ cut c) : Valid l := by
  induction c using byLines with
  | nil => simp [cut] at hl
  | last m hm hne =>
    rw [cut_last m hm hne, List.mem_singleton] at hl
    exact hl ▸ h
  | line m r hm ih =>
    obtain ⟨hvm, hvr⟩ := Valid.around (by decide : lineFeed.toNat < 0x80) h
    rw [cut_line m r hm, List.mem_cons] at hl
    cases hl with
    | inl hl => exact hl ▸ hvm
    | inr hl => exact ih hvr hl

theorem valid_of_mem_split {c : Bytes} (h : Valid c) : ∀ l ∈ split c, Valid l := by
  intro l hl
  obtain ⟨m, hm, rfl⟩ := List.mem_map.mp hl
  have hv := valid_of_mem_cut h hm
  cases dropFinalReturn_cases m with
  | inl e => rwa [e]
  | inr e =>
    rw [e] at hv
    exact (Valid.around (by decide : carriageReturn.toNat < 0x80) hv).1

theorem valid_terminate {separator : Bytes} (hs : Valid separator) {ls : List Bytes}
    (h : ∀ l ∈ ls, Valid l) : Valid (terminate separator ls) := by
  induction ls with
  | nil => exact valid_nil
  | cons l ls ih =>
    obtain ⟨hl, hls⟩ := List.forall_mem_cons.mp h
    rw [terminate_cons]
    exact hl.append (hs.append (ih hls))

theorem LineBreaks.valid_gap (p : Padding) : Valid (Held.gap p).line := by
  refine Ascii.valid fun b hb => ?_
  cases mem_gap hb with
  | inl hb =>
    rw [hb]
    decide
  | inr hb =>
    have hp : Ascii placeholder := by decide
    exact hp b hb

namespace Escape

theorem ascii_source {ds : Bytes} (hd : EightDigits ds) : Ascii (lead :: marker :: ds) := by
  have hu : Ascii upperDigits := by decide
  have hds : Ascii ds := fun b hb => hu b (by simpa [isDigit] using hd.upper b hb)
  exact List.forall_mem_cons.mpr ⟨by decide, List.forall_mem_cons.mpr ⟨by decide, hds⟩⟩

theorem valid_of_decode {c out : Bytes} (h : Valid c) (hd : decode c = .ok out) : Valid out := by
  obtain ⟨ts, rfl, rfl⟩ := (decode_eq_ok_iff c out).mp hd
  have hv : Valid ([] ++ outputs ts) := by
    refine Valid.flatMap (fun t _ => ?_) (by simpa using h : Valid ([] ++ sources ts))
    cases t with
    | plain b hb => exact Or.inl rfl
    | escape ds c hd hc => exact Or.inr ⟨ascii_source hd, List.cons_ne_nil _ _, valid_encode c⟩
  exact hv

end Escape

namespace Config

theorem valid_prepared (c : Config) {input : Bytes} (h : Valid input) :
    Valid (c.prepared input) := by
  have hstripped := valid_stripReturns h
  obtain hl | ⟨hs, hm⟩ := c.lines_or_neither
  · have hfeed : Valid [lineFeed] := by decide
    rw [prepared_of_lines hl]
    exact valid_terminate hfeed
      (c.forall_preparedLines valid_gap (valid_of_mem_split hstripped))
  · rwa [prepared_of_neither hs hm]

theorem valid_placed (c : Config) {directives : List Directive}
    (hd : ∀ d ∈ directives, Valid d.content) {y : Bytes} (hy : Valid y) :
    Valid (c.placed directives y) := by
  have hw := valid_write c.lineEnding hy
  cases hs : c.stripDirectives with
  | true =>
    rw [placed_of_strip hs]
    exact valid_terminate (valid_separator _) (c.forall_woven hd (valid_of_mem_split hw))
  | false => rwa [placed_of_not_strip hs]

theorem valid_restored (c : Config) {directives : List Directive}
    (hd : ∀ d ∈ directives, Valid d.content) {y : Bytes} (hy : Valid y) :
    Valid (c.restored directives y) := by
  have hp := c.valid_placed hd hy
  cases hm : c.lineBreakMode with
  | none => rwa [restored_none hm]
  | some mode =>
    rw [restored_some hm]
    exact valid_terminate (valid_separator _)
      (forall_release valid_nil mode (valid_of_mem_split hp))

theorem valid_finished (c : Config) {content out : Bytes} (h : Valid content)
    (hf : c.finished content = .done out) : Valid out := by
  unfold finished at hf
  split at hf
  · split at hf
    · next o ho => exact Outcome.done.inj hf ▸ Escape.valid_of_decode h ho
    · exact absurd hf (by simp)
  · exact Outcome.done.inj hf ▸ h

end Config

/-- A document that reads as UTF-8 is given to the reformat as one, and finished as one if the
reformat answers with such texts to such texts. -/
theorem utf8_preserved (c : Config) (reformat : Reformat)
    (hr : ∀ x y, Valid x → reformat x = .ok y → Valid y) (input : Bytes) (hi : Valid input) :
    ∃ prepared, ((Formatter.ofConfig c reformat).prepare input).outcome = .done prepared ∧
      Valid prepared ∧
      ∀ out, ((Formatter.ofConfig c reformat).format input).outcome = .done out → Valid out := by
  have hp := c.valid_prepared hi
  refine ⟨c.prepared input, Formatter.prepare_outcome c reformat input, hp, fun out hout => ?_⟩
  have hd : ∀ d ∈ Directive.recorded (split (stripReturns input)), Valid d.content := fun d hd =>
    valid_of_mem_split (valid_stripReturns hi) _ (Directive.content_mem_of_mem_numbered hd)
  cases hy : reformat (c.prepared input) with
  | error e =>
    rw [Formatter.format_of_error hy] at hout
    exact absurd hout (by simp)
  | ok y =>
    rw [Formatter.format_of_ok hy] at hout
    exact c.valid_finished (c.valid_restored hd (hr _ y hp hy)) hout

theorem utf8_preserved_escape :
    let c : Config :=
      { lineEnding := .crlf, retainLineBreaksSingle := true, stripDirectives := true,
        parseUnicode := true }
    let input := Utf8.ofString "%é\r\nä\n\u3000\n  😊"
    let prepared := Utf8.ofString "ä\n#magic___^_^___line\n  😊\n"
    let reformat : Reformat := fun x => .ok (x ++ Utf8.ofString "\\U0001F60A")
    let out := Utf8.ofString "%é\r\nä\r\n\r\n  😊\r\n😊\r\n"
    (∀ x y, Valid x → reformat x = .ok y → Valid y) ∧ Valid input ∧
    ((Formatter.ofConfig c reformat).prepare input).outcome = .done prepared ∧ Valid prepared ∧
    ((Formatter.ofConfig c reformat).format input).outcome = .done out ∧ Valid out := by
  intro c input prepared reformat out
  have hr : ∀ x y, Valid x → reformat x = .ok y → Valid y := by
    intro x y hx hy
    obtain rfl := Except.ok.inj hy
    exact hx.append (by decide +kernel)
  have hi : Valid input := by decide +kernel
  have hp : ((Formatter.ofConfig c reformat).prepare input).outcome = .done prepared := by
    decide +kernel
  have hout : ((Formatter.ofConfig c reformat).format input).outcome = .done out := by
    decide +kernel
  obtain ⟨_, hgiven, hvalid, hkeep⟩ := utf8_preserved c reformat hr input hi
  obtain rfl := Outcome.done.inj (hgiven.symm.trans hp)
  exact ⟨hr, hi, hp, hvalid, hout, hkeep out hout⟩

end YamlLayout
