import YamlLayout.Proofs.Escape.Spelling
import YamlLayout.Proofs.Formatter

/-! Escapes that a reformat writes for characters beyond the basic plane are gone from the
finished document: the after phase does with them what it would do with the characters,
and its last step reads them back. -/
namespace YamlLayout
open Lines LineBreaks Escape

/-- A reformat that writes its answer with escapes, for the characters beyond the basic plane
that are chosen by the text given and by their positions in the answer. -/
def Reformat.escaping (reformat : Reformat) (chosen : Bytes → Nat → Bool) : Reformat :=
  fun prepared => (reformat prepared).map fun y =>
    match Utf8.decode? y with
    | some cs => spell (chosen prepared) cs
    | none => y

theorem Reformat.escaping_ok {reformat : Reformat} {prepared y : Bytes}
    (hy : reformat prepared = .ok y) (hv : (Utf8.decode? y).isSome = true) (hl : lead ∉ y)
    (chosen : Bytes → Nat → Bool) :
    ∃ w, reformat.escaping chosen prepared = .ok w ∧ Spells w y := by
  obtain ⟨cs, hcs⟩ := Option.isSome_iff_exists.mp hv
  have he : Utf8.encodeAll cs = y := Utf8.encodeAll_of_decode? hcs
  have hm : '\\' ∉ cs := fun hm => hl (he ▸ List.mem_flatMap.mpr ⟨'\\', hm, by decide⟩)
  refine ⟨spell (chosen prepared) cs, ?_, he ▸ spells_spell (chosen prepared) hm⟩
  simp [escaping, hy, hcs, Except.map]

theorem Reformat.escaping_error {reformat : Reformat} {prepared : Bytes} {e : Error}
    (he : reformat prepared = .error e) (chosen : Bytes → Nat → Bool) :
    reformat.escaping chosen prepared = .error e := by
  simp [escaping, he, Except.map]

namespace Config

theorem placed_spells (c : Config) {directives : List Directive}
    (hd : c.stripDirectives = true → ∀ d ∈ directives, lead ∉ d.content) {w y : Bytes}
    (h : Spells w y) : Spells (c.placed directives w) (c.placed directives y) := by
  have hwrite := h.write c.lineEnding
  cases hs : c.stripDirectives with
  | true =>
    rw [placed_of_strip hs, placed_of_strip hs]
    exact spells_terminate c.lineEnding
      (c.woven_forall₂ (fun d hm => Spells.refl (hd hs d hm)) hwrite.split)
  | false =>
    rw [placed_of_not_strip hs, placed_of_not_strip hs]
    exact hwrite

theorem restored_spells (c : Config) {directives : List Directive}
    (hd : c.stripDirectives = true → ∀ d ∈ directives, lead ∉ d.content) {w y : Bytes}
    (h : Spells w y) : Spells (c.restored directives w) (c.restored directives y) := by
  have hplaced := c.placed_spells hd h
  cases hm : c.lineBreakMode with
  | none =>
    rw [restored_none hm, restored_none hm]
    exact hplaced
  | some mode =>
    rw [restored_some hm, restored_some hm]
    exact spells_terminate c.lineEnding (release_forall₂ Spells.nil
      (fun _ _ hlm => hlm.isBlank) (fun _ _ hlm => hlm.isPlaceholder) mode false hplaced.split)

theorem finished_spells {c : Config} (hc : c.parseUnicode = true) {w y : Bytes}
    (h : Spells w y) : c.finished w = .done y := by
  simp [finished, hc, h.decode]

end Config

/-- Where neither the answer of the reformat nor a directive has a backslash of its own,
escapes in the answer change nothing: with them read, a run ends as it does without any. -/
theorem escapes_cancel (c : Config) (hc : c.parseUnicode = true) (reformat : Reformat)
    (hr : ∀ prepared y, reformat prepared = .ok y →
      (Utf8.decode? y).isSome = true ∧ lead ∉ y)
    (chosen : Bytes → Nat → Bool) (input : Bytes)
    (hd : c.stripDirectives = true → ∀ l ∈ split (stripReturns input),
      Directive.isDirective l = true → lead ∉ l) :
    let escaped := Formatter.ofConfig c (reformat.escaping chosen)
    let plain := Formatter.ofConfig { c with parseUnicode := false } reformat
    (escaped.format input).outcome = (plain.format input).outcome ∧
    ∃ prepared, (escaped.prepare input).outcome = .done prepared ∧
      ∀ y, reformat prepared = .ok y → ∃ out, (escaped.format input).outcome = .done out := by
  intro escaped plain
  have hdirectives : c.stripDirectives = true →
      ∀ d ∈ Directive.recorded (split (stripReturns input)), lead ∉ d.content :=
    fun hs d hm => hd hs d.content (Directive.content_mem_of_mem_numbered hm)
      (Directive.isDirective_of_mem_numbered hm)
  -- the reformat answers both runs with texts of which one spells the other
  have hanswer (y : Bytes) (hy : reformat (c.prepared input) = .ok y) :
      (escaped.format input).outcome =
          .done (c.restored (Directive.recorded (split (stripReturns input))) y) ∧
        (plain.format input).outcome =
          .done (c.restored (Directive.recorded (split (stripReturns input))) y) := by
    obtain ⟨hv, hl⟩ := hr _ y hy
    obtain ⟨w, hw, hwy⟩ := Reformat.escaping_ok hy hv hl chosen
    have hescaped := Formatter.format_of_ok hw
    have hplain := Formatter.format_of_ok (c := { c with parseUnicode := false }) hy
    exact ⟨hescaped.trans (Config.finished_spells hc (c.restored_spells hdirectives hwy)), hplain⟩
  constructor
  · cases hy : reformat (c.prepared input) with
    | error e =>
      have hescaped := Formatter.format_of_error (Reformat.escaping_error hy chosen)
      have hplain := Formatter.format_of_error (c := { c with parseUnicode := false }) hy
      exact hescaped.trans hplain.symm
    | ok y => exact (hanswer y hy).1.trans (hanswer y hy).2.symm
  · exact ⟨c.prepared input, Formatter.prepare_outcome c _ input,
      fun y hy => ⟨_, (hanswer y hy).1⟩⟩

theorem escapes_cancel_second :
    let c : Config :=
      { lineEnding := .crlf, retainLineBreaksSingle := true, stripDirectives := true,
        parseUnicode := true }
    let input := Utf8.ofString "%A\na\n\n"
    let y := Utf8.ofString "😊 a\n\n #magic___^_^___line\n😊\n"
    let reformat : Reformat := fun _ => .ok y
    let chosen : Bytes → Nat → Bool := fun _ i => i != 0
    c.parseUnicode = true ∧
    (∀ prepared z, reformat prepared = .ok z → (Utf8.decode? z).isSome = true ∧ lead ∉ z) ∧
    (c.stripDirectives = true → ∀ l ∈ split (stripReturns input),
      Directive.isDirective l = true → lead ∉ l) ∧
    reformat.escaping chosen [] =
      .ok (Utf8.ofString "😊 a\n\n #magic___^_^___line\n\\U0001F60A\n") ∧
    ((Formatter.ofConfig c (reformat.escaping chosen)).format input).outcome =
      .done (Utf8.ofString "%A\r\n😊 a\r\n\r\n😊\r\n") := by
  intro c input y reformat chosen
  have hr : ∀ prepared z, reformat prepared = .ok z →
      (Utf8.decode? z).isSome = true ∧ lead ∉ z := by
    intro prepared z hz
    obtain rfl : y = z := Except.ok.inj hz
    decide +kernel
  have hd : c.stripDirectives = true → ∀ l ∈ split (stripReturns input),
      Directive.isDirective l = true → lead ∉ l := by decide +kernel
  have hplain : ((Formatter.ofConfig { c with parseUnicode := false } reformat).format
      input).outcome = .done (Utf8.ofString "%A\r\n😊 a\r\n\r\n😊\r\n") := by
    decide +kernel
  exact ⟨rfl, hr, hd, by decide +kernel,
    (escapes_cancel c rfl reformat hr chosen input hd).1.trans hplain⟩

end YamlLayout
