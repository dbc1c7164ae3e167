import Mathlib.Data.List.Infix
import YamlLayout.Proofs.Terminators
import YamlLayout.Proofs.Text.Pairs

/-! Which finished documents end their lines with the configured terminator throughout. Up to
the reading of escapes all do. That is the last step and no other follows it: escapes for
carriage returns and line feeds are read to these bytes, whatever the terminator is. -/
namespace YamlLayout
open Lines Escape

/-- Whether a text keeps to one terminator, its carriage returns and line feeds being spelled
like this. -/
def LineEnding.Consistent (e : LineEnding) (cr feed text : Bytes) : Prop :=
  match e with
  | .lf => ¬ cr <:+: text
  | .crlf => Coupled cr feed text

instance (e : LineEnding) (cr feed text : Bytes) : Decidable (e.Consistent cr feed text) :=
  match e with
  | .lf => inferInstanceAs (Decidable (¬ cr <:+: text))
  | .crlf => inferInstanceAs (Decidable (Coupled cr feed text))

theorem coupled_iff_paired (t : Bytes) : Coupled [carriageReturn] [lineFeed] t ↔
    Paired (· = carriageReturn) (· = lineFeed) t := by
  have h := coupled_flatMap_iff (whole_byte carriageReturn) (whole_byte lineFeed) (by simp) t
  simpa only [List.flatMap_singleton', List.cons.injEq, and_true] using h

theorem coupled_insertReturns {t : Bytes} (h : carriageReturn ∉ t) :
    Coupled [carriageReturn] [lineFeed] (insertReturns t) := by
  refine (coupled_iff_paired _).mpr (paired_flatMap fun b hb => ?_)
  by_cases hf : b = lineFeed
  · rw [if_pos hf]
    exact paired_pair ⟨rfl, by decide⟩ ⟨by rw [hf]; decide, hf⟩
  · rw [if_neg hf]
    refine paired_of_neither fun x hx => ?_
    obtain rfl := List.mem_singleton.mp hx
    exact ⟨fun e => h (e ▸ hb), hf⟩

theorem LineEnding.consistent_write (e : LineEnding) {t : Bytes} (h : carriageReturn ∉ t) :
    e.Consistent [carriageReturn] [lineFeed] (e.write t) := by
  cases e with
  | lf => exact mt (List.singleton_infix_iff carriageReturn t).mp h
  | crlf => exact coupled_insertReturns h

namespace Escape
open Utf8

theorem not_mem_tail_source {b : UInt8} (hm : b ≠ marker) (hb : isDigit b = false) (t : Token) :
    b ∉ t.source.tail := by
  cases t with
  | plain a h => simp [Token.source]
  | escape ds c hd hc =>
    have hds : b ∉ ds := fun h => by simp [hd.upper b h] at hb
    simpa [Token.source, hm] using hds

theorem whole_source_byte {b : UInt8} (hl : b ≠ lead) (hm : b ≠ marker)
    (hb : isDigit b = false) : Whole Token.source [b] := by
  refine whole_of_first (not_mem_tail_source hm hb) fun t s h => ?_
  cases t with
  | plain a ha => simp [(List.cons.inj h).2.symm]
  | escape ds c hd hc => exact absurd (List.cons.inj h).1.symm hl

theorem whole_source_escape {r : Bytes} (hr : r.length = 9) : Whole Token.source (lead :: r) := by
  refine whole_of_first (not_mem_tail_source (by decide) (by decide)) fun t s h => ?_
  cases t with
  | plain a ha => exact absurd (List.cons.inj h).1 ha
  | escape ds c hd hc =>
    obtain rfl := (List.cons.inj h).2
    simp [hd.length_eq, digitCount, hr]

theorem output_of_ascii_mem {b : UInt8} (hb : b.toNat < 0x80) {t : Token} (h : b ∈ t.output) :
    t.output = [b] := by
  cases t with
  | plain a ha => rw [Token.output, List.mem_singleton.mp h]
  | escape ds c hd hc =>
    have hn := toNat_of_ascii_mem h hb
    rw [Token.output, encode_ascii (by omega), hn, UInt8.ofNat_toNat]

theorem whole_output_byte {b : UInt8} (hb : b.toNat < 0x80) : Whole Token.output [b] := by
  refine whole_of_first (fun t h => ?_) fun t s h => ?_
  · rw [output_of_ascii_mem hb (List.mem_of_mem_tail h)] at h
    simp at h
  · rw [output_of_ascii_mem hb (by rw [h]; exact List.mem_cons_self)] at h
    simp [(List.cons.inj h).2.symm]

theorem singleton_ne_escapeOf (b : UInt8) (a : Char) : [b] ≠ escapeOf a := by simp [escapeOf]

theorem output_eq_encode_iff (a : Char) (t : Token) :
    t.output = encode a ↔ t.source = encode a ∨ t.source = escapeOf a := by
  cases t with
  | plain b h => simp [Token.output, Token.source, singleton_ne_escapeOf b a]
  | escape ds c hd hc =>
    have hs : lead :: marker :: ds ≠ encode a := by
      intro h
      have hm : lead ∈ encode a := h ▸ List.mem_cons_self
      have ho : encode a = [.ofNat a.toNat] :=
        encode_ascii (by rw [toNat_of_ascii_mem hm (by decide)]; decide)
      simp [ho] at h
    simp only [Token.output, Token.source, hs, false_or]
    rw [← escapeOf_number hd hc, escapeOf_inj, encode_inj]

theorem whole_source_escapeOf (a : Char) : Whole Token.source (escapeOf a) := by
  obtain ⟨ds, hd, ha⟩ := exists_eightDigits a
  rw [escapeOf_number hd ha]
  exact whole_source_escape (by simp [hd.length_eq, digitCount])

/-- A text that keeps to a terminator still does with its escapes read exactly when its
escapes for carriage returns and line feeds keep to it. -/
theorem consistent_outputs_iff {e : LineEnding} {ts : List Token}
    (h : e.Consistent [carriageReturn] [lineFeed] (sources ts)) :
    e.Consistent [carriageReturn] [lineFeed] (outputs ts) ↔
      e.Consistent (escapeOf '\r') (escapeOf '\n') (sources ts) := by
  have hr : Whole Token.source [carriageReturn] := whole_source_byte (by decide) (by decide) rfl
  have hf : Whole Token.source [lineFeed] := whole_source_byte (by decide) (by decide) rfl
  have hro : Whole Token.output [carriageReturn] := whole_output_byte (by decide)
  have hfo : Whole Token.output [lineFeed] := whole_output_byte (by decide)
  have hreturn : ∀ t : Token, t.output = [carriageReturn] ↔
      t.source = [carriageReturn] ∨ t.source = escapeOf '\r' := output_eq_encode_iff '\r'
  have hfeed : ∀ t : Token, t.output = [lineFeed] ↔
      t.source = [lineFeed] ∨ t.source = escapeOf '\n' := output_eq_encode_iff '\n'
  unfold sources at h ⊢
  unfold outputs
  cases e with
  | lf =>
    simp only [LineEnding.Consistent, hr.infix_iff, hro.infix_iff,
      (whole_source_escapeOf '\r').infix_iff, hreturn] at h ⊢
    exact not_congr ⟨fun ⟨t, ht, hs⟩ => ⟨t, ht, hs.resolve_left fun he => h ⟨t, ht, he⟩⟩,
      fun ⟨t, ht, hs⟩ => ⟨t, ht, Or.inr hs⟩⟩
  | crlf =>
    simp only [LineEnding.Consistent] at h ⊢
    rw [coupled_flatMap_iff hr hf Token.source_ne_nil] at h
    rw [coupled_flatMap_iff hro hfo Token.output_ne_nil,
      coupled_flatMap_iff (whole_source_escapeOf '\r') (whole_source_escapeOf '\n')
        Token.source_ne_nil]
    simp only [hreturn, hfeed]
    exact h.or_iff (fun t ht he => singleton_ne_escapeOf _ _ (ht.symm.trans he))
      (fun t ht he => singleton_ne_escapeOf _ _ (ht.symm.trans he))

end Escape

namespace Config

theorem restored_consistent (c : Config) {directives : List Directive}
    (hd : ∀ d ∈ directives, Bare d.content) {y : Bytes} (hy : carriageReturn ∉ y) :
    c.lineEnding.Consistent [carriageReturn] [lineFeed] (c.restored directives y) := by
  obtain ⟨ht, hwrite⟩ := c.restored_variant c.lineEnding c.parseUnicode hd hy
  exact hwrite ▸ c.lineEnding.consistent_write ht

theorem decode_of_finished {c : Config} (hc : c.parseUnicode = true) {content out : Bytes}
    (h : c.finished content = .done out) : decode content = .ok out := by
  rw [finished, if_pos hc] at h
  cases hd : decode content with
  | ok o =>
    rw [hd] at h
    rw [Outcome.done.inj h]
  | error e =>
    rw [hd] at h
    cases h

end Config

/-- A run that reads no escapes keeps to its terminator. One that reads them keeps to it
exactly when the escapes for carriage returns and line feeds do that are left for its last
step. -/
theorem consistent_iff_escapes (c : Config) (reformat : Reformat) (input : Bytes) :
    let run (unicode : Bool) :=
      ((Formatter.ofConfig { c with parseUnicode := unicode } reformat).format input).outcome
    ∃ prepared, ((Formatter.ofConfig c reformat).prepare input).outcome = .done prepared ∧
      ∀ y, reformat prepared = .ok y → carriageReturn ∉ y →
        ∃ t, run false = .done t ∧ c.lineEnding.Consistent [carriageReturn] [lineFeed] t ∧
          ∀ out, run true = .done out →
            (c.lineEnding.Consistent [carriageReturn] [lineFeed] out ↔
              c.lineEnding.Consistent (Utf8.ofString "\\U0000000D")
                (Utf8.ofString "\\U0000000A") t) := by
  intro run
  refine ⟨c.prepared input, Formatter.prepare_outcome c reformat input, fun y hy hr => ?_⟩
  have hd : ∀ d ∈ Directive.recorded (split (stripReturns input)), Bare d.content :=
    fun d => Config.recorded_content_bare
  have hrun (unicode : Bool) : run unicode = { c with parseUnicode := unicode }.finished
      (c.restored (Directive.recorded (split (stripReturns input))) y) :=
    Formatter.format_of_ok (c := { c with parseUnicode := unicode }) hy
  have ht := c.restored_consistent hd hr
  refine ⟨_, hrun false, ht, fun out hout => ?_⟩
  have hdecode := Config.decode_of_finished rfl ((hrun true).symm.trans hout)
  obtain ⟨ts, hs, rfl⟩ := (decode_eq_ok_iff _ out).mp hdecode
  rw [← hs] at ht ⊢
  exact consistent_outputs_iff ht

theorem consistent_iff_escapes_pair :
    let c : Config := { lineEnding := .crlf, retainLineBreaks := true, parseUnicode := true }
    let input := Utf8.ofString "a\n\n"
    let prepared := Utf8.ofString "a\n#magic___^_^___line\n"
    let y := Utf8.ofString "a\\U0000000D\\U0000000Ab\n#magic___^_^___line"
    let reformat : Reformat := fun _ => .ok y
    let out := Utf8.ofString "a\r\nb\r\n\r\n"
    ((Formatter.ofConfig c reformat).prepare input).outcome = .done prepared ∧
    reformat prepared = .ok y ∧ carriageReturn ∉ y ∧
    ((Formatter.ofConfig c reformat).format input).outcome = .done out ∧
    c.lineEnding.Consistent [carriageReturn] [lineFeed] out := by
  intro c input prepared y reformat out
  have hp : ((Formatter.ofConfig c reformat).prepare input).outcome = .done prepared := by
    decide +kernel
  have hr : carriageReturn ∉ y := by decide +kernel
  have hout : ((Formatter.ofConfig c reformat).format input).outcome = .done out := by
    decide +kernel
  have hleft : ((Formatter.ofConfig { c with parseUnicode := false } reformat).format
      input).outcome =
      .done (Utf8.ofString "a\\U0000000D\\U0000000Ab\r\n\r\n") := by
    decide +kernel
  obtain ⟨p, hprepare, hall⟩ := consistent_iff_escapes c reformat input
  obtain rfl : p = prepared := Outcome.done.inj (hprepare.symm.trans hp)
  obtain ⟨t, ht, -, hiff⟩ := hall y rfl hr
  obtain rfl := Outcome.done.inj (ht.symm.trans hleft)
  exact ⟨hp, rfl, hr, hout, (hiff out hout).mpr (by decide +kernel)⟩

theorem escapes_break_terminators :
    let run (e : LineEnding) (y : Bytes) :=
      ((Formatter.ofConfig { lineEnding := e, parseUnicode := true } fun _ => .ok y).format
        (Utf8.ofString "a\n")).outcome
    let feed := Utf8.ofString "a\\U0000000Ab\n"
    let cr := Utf8.ofString "a\\U0000000Db\n"
    carriageReturn ∉ feed ∧ run .crlf feed = .done (Utf8.ofString "a\nb\r\n") ∧
    ¬ LineEnding.crlf.Consistent [carriageReturn] [lineFeed] (Utf8.ofString "a\nb\r\n") ∧
    carriageReturn ∉ cr ∧ run .lf cr = .done (Utf8.ofString "a\rb\n") ∧
    ¬ LineEnding.lf.Consistent [carriageReturn] [lineFeed] (Utf8.ofString "a\rb\n") := by
  decide +kernel

end YamlLayout
