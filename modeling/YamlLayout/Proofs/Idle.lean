import YamlLayout.Proofs.Escape.Spelling
import YamlLayout.Proofs.NormalForm

/-! A feature that finds nothing to do. It may still cut the text into lines and terminate them
anew, in both phases; on texts whose last line is terminated this shows in nothing, so that the
run ends as it does without the feature. -/
namespace YamlLayout
open Lines LineBreaks

theorem Directive.numbered_of_none (n : Nat) {ls : List Bytes}
    (h : ∀ l ∈ ls, isDirective l = false) : numbered n ls = [] := by
  induction ls generalizing n with
  | nil => rfl
  | cons l ls ih =>
    obtain ⟨hl, hls⟩ := List.forall_mem_cons.mp h
    rw [numbered_text hl, ih _ hls]

theorem Directive.place_nil (n : Nat) (ls : List Bytes) :
    (place n [] ls).map Placed.line = ls := by
  induction ls generalizing n with
  | nil => simp [place, placeTrailing]
  | cons l ls ih => simp [place, Placed.line, ih]

namespace LineBreaks

theorem hold_of_not_blank (p : Padding) {ls : List Bytes} (h : ∀ l ∈ ls, isBlank l = false) :
    (hold p ls).map Held.line = ls := by
  induction ls generalizing p with
  | nil => rfl
  | cons l ls ih =>
    obtain ⟨hl, hls⟩ := List.forall_mem_cons.mp h
    rw [hold_cons, hl, ih _ hls]
    rfl

theorem settled_of_text (mode : LineBreakMode) {ls : List Bytes}
    (h : ∀ l ∈ ls, isGap l = false) : settled mode ls = ls := by
  cases mode with
  | all =>
    have hc : ∀ l ∈ ls, cleared l = id l := fun l hl => (cleared_text (h l hl)).1
    exact (List.map_congr_left hc).trans (List.map_id ls)
  | single =>
    simp only [settled]
    induction ls with
    | nil => simp [collapsed]
    | cons l ls ih =>
      obtain ⟨hl, hls⟩ := List.forall_mem_cons.mp h
      rw [collapsed_text hl, ih hls]

end LineBreaks

namespace Config

/-- Whether or not a feature cuts a terminated text into lines, it is prepared as lines. -/
theorem prepared_of_terminated (c : Config) {input : Bytes} (h : Terminated (stripReturns input)) :
    c.prepared input = terminate [lineFeed] (c.preparedLines (split (stripReturns input))) := by
  obtain hl | ⟨hs, hm⟩ := c.lines_or_neither
  · exact prepared_of_lines hl input
  · have hlines : c.preparedLines (split (stripReturns input)) = split (stripReturns input) := by
      simp [preparedLines, keptLines, hs, hm]
    rw [prepared_of_neither hs hm, hlines,
      terminate_split (carriageReturn_not_mem_stripReturns input) h]

theorem restored_of_terminated (c : Config) {directives : List Directive}
    (hd : ∀ d ∈ directives, Bare d.content) {y : Bytes} (hr : carriageReturn ∉ y)
    (h : Terminated y) : c.restored directives y =
      terminate c.lineEnding.separator (c.released (c.woven directives (split y))) := by
  have hy : ∀ l ∈ split y, Bare l := fun l => bare_of_mem_split hr
  have hplaced := c.placed_terminate directives hy
  rw [terminate_split hr h] at hplaced
  cases hm : c.lineBreakMode with
  | none => simp only [restored_none hm, hplaced, released, hm]
  | some mode =>
    rw [restored_some hm, hplaced, c.lineEnding.split_terminate_bare (c.forall_woven hd hy)]
    simp only [released, hm]

theorem keptLines_of_none (c : Config) {ls : List Bytes}
    (h : ∀ l ∈ ls, Directive.isDirective l = false) : c.keptLines ls = ls := by
  unfold keptLines
  split
  · exact List.filter_eq_self.mpr fun l hl => by simp [h l hl]
  · rfl

theorem woven_nil (c : Config) (ls : List Bytes) : c.woven [] ls = ls := by
  unfold woven
  split
  · exact Directive.place_nil 1 ls
  · rfl

theorem preparedLines_of_not_blank (c : Config) {ls : List Bytes}
    (h : ∀ l ∈ ls, isBlank l = false) : c.preparedLines ls = c.keptLines ls := by
  unfold preparedLines
  split
  · exact hold_of_not_blank {} fun l hl => h l (mem_of_mem_keptLines hl)
  · rfl

theorem released_of_text (c : Config) {ls : List Bytes} (h : ∀ l ∈ ls, isGap l = false) :
    c.released ls = ls := by
  unfold released
  split
  · rfl
  · next mode _ =>
    have hb : ∀ l ∈ ls, isBlank l = false := fun l hl => (Bool.or_eq_false_iff.mp (h l hl)).1
    rw [release_of_not_blank mode hb, settled_of_text mode h]

section strip
variable (c : Config) {input : Bytes}
  (hd : ∀ l ∈ split (stripReturns input), Directive.isDirective l = false)
include hd

theorem prepared_strip_of_none (hx : Terminated (stripReturns input)) :
    { c with stripDirectives := true }.prepared input =
      { c with stripDirectives := false }.prepared input := by
  rw [prepared_of_terminated _ hx, prepared_of_terminated _ hx]
  simp only [preparedLines, keptLines_of_none _ hd]
  rfl

theorem restored_strip_of_none {y : Bytes} (hr : carriageReturn ∉ y) (h : Terminated y) :
    { c with stripDirectives := true }.restored
        (Directive.recorded (split (stripReturns input))) y =
      { c with stripDirectives := false }.restored
        (Directive.recorded (split (stripReturns input))) y := by
  have hnone : Directive.recorded (split (stripReturns input)) = [] :=
    Directive.numbered_of_none 1 hd
  rw [hnone, restored_of_terminated _ (by simp) hr h, restored_of_terminated _ (by simp) hr h,
    woven_nil, woven_nil]
  rfl

end strip

theorem prepared_of_not_blank (c : Config) {input : Bytes} (hx : Terminated (stripReturns input))
    (hb : ∀ l ∈ split (stripReturns input), isBlank l = false) :
    c.prepared input = terminate [lineFeed] (c.keptLines (split (stripReturns input))) := by
  rw [c.prepared_of_terminated hx, c.preparedLines_of_not_blank hb]

theorem restored_of_text (c : Config) (input : Bytes) {y : Bytes} (hr : carriageReturn ∉ y)
    (h : Terminated y) (hg : ∀ l ∈ split y, isGap l = false) :
    c.restored (Directive.recorded (split (stripReturns input))) y =
      terminate c.lineEnding.separator
        (c.woven (Directive.recorded (split (stripReturns input))) (split y)) := by
  have hdg : ∀ d ∈ Directive.recorded (split (stripReturns input)), isGap d.content = false :=
    fun d hd => Directive.isGap_of_isDirective (Directive.isDirective_of_mem_numbered hd)
  rw [c.restored_of_terminated (fun d => recorded_content_bare) hr h,
    c.released_of_text (c.forall_woven hdg hg)]

end Config

namespace Formatter

def Yields (f : Formatter) (input : Bytes) (P : Bytes → Prop) : Prop :=
  ∀ prepared y, (f.prepare input).outcome = .done prepared → f.reformat prepared = .ok y → P y

theorem yields_iff {c : Config} {reformat : Reformat} {input : Bytes} {P : Bytes → Prop} :
    (ofConfig c reformat).Yields input P ↔ ∀ y, reformat (c.prepared input) = .ok y → P y := by
  have hp := prepare_outcome c reformat input
  constructor
  · exact fun h y => h _ y hp
  · intro h prepared y ho hy
    obtain rfl := Outcome.done.inj (hp.symm.trans ho)
    exact h y hy

theorem outcome_congr {c k : Config} (reformat : Reformat) {input : Bytes} {P : Bytes → Prop}
    (hu : c.parseUnicode = k.parseUnicode) (hp : c.prepared input = k.prepared input)
    (hr : ∀ y, P y → c.restored (Directive.recorded (split (stripReturns input))) y =
      k.restored (Directive.recorded (split (stripReturns input))) y)
    (hy : (ofConfig k reformat).Yields input P) :
    ((ofConfig c reformat).format input).outcome =
      ((ofConfig k reformat).format input).outcome := by
  rw [format_outcome, format_outcome, hp]
  cases hf : reformat (k.prepared input) with
  | error e => rfl
  | ok y =>
    have hrest := hr y (yields_iff.mp hy y hf)
    simp only [Config.finished, hrest, hu]

theorem outcome_of_no_lead (c : Config) (reformat : Reformat) (input : Bytes)
    (h : ∀ t, ((ofConfig { c with parseUnicode := false } reformat).format input).outcome =
      .done t → Escape.lead ∉ t) :
    ((ofConfig { c with parseUnicode := true } reformat).format input).outcome =
      ((ofConfig { c with parseUnicode := false } reformat).format input).outcome := by
  cases ho : ((ofConfig { c with parseUnicode := false } reformat).format input).outcome with
  | done t => rw [format_reading ho, (Escape.Spells.refl (h t ho)).decode]
  | failed e => exact format_reading_failed ho
  | breach cause => exact absurd ho (format_ne_breach _ reformat input cause)

end Formatter

/-- On a terminated document, a feature without work is as good as absent. Stripping has none
where no line is a directive; keeping blank lines has none where no line is blank and the
reformat makes no gap; reading escapes has none where no backslash is left. -/
theorem idle_features (c : Config) (reformat : Reformat) (input : Bytes)
    (hx : Terminated (stripReturns input)) :
    ((∀ l ∈ split (stripReturns input), Directive.isDirective l = false) →
      (Formatter.ofConfig { c with stripDirectives := false } reformat).Yields input
        (fun y => carriageReturn ∉ y ∧ Terminated y) →
      ((Formatter.ofConfig { c with stripDirectives := true } reformat).format input).outcome =
        ((Formatter.ofConfig { c with stripDirectives := false } reformat).format
          input).outcome) ∧
    ((∀ l ∈ split (stripReturns input), isBlank l = false) →
      (Formatter.ofConfig
        { c with retainLineBreaks := false, retainLineBreaksSingle := false } reformat).Yields
        input (fun y => carriageReturn ∉ y ∧ Terminated y ∧
          ∀ l ∈ split y, isBlank l = false ∧ isPlaceholder l = false) →
      ∀ all single : Bool,
        ((Formatter.ofConfig
          { c with retainLineBreaks := all, retainLineBreaksSingle := single } reformat).format
          input).outcome =
        ((Formatter.ofConfig
          { c with retainLineBreaks := false, retainLineBreaksSingle := false } reformat).format
          input).outcome) ∧
    ((∀ t, ((Formatter.ofConfig { c with parseUnicode := false } reformat).format input).outcome =
        .done t → Escape.lead ∉ t) →
      ((Formatter.ofConfig { c with parseUnicode := true } reformat).format input).outcome =
        ((Formatter.ofConfig { c with parseUnicode := false } reformat).format input).outcome) := by
  refine ⟨fun hd hy => ?strip, fun hb hy all single => ?keep,
    Formatter.outcome_of_no_lead c reformat input⟩
  case strip =>
    exact Formatter.outcome_congr reformat rfl (c.prepared_strip_of_none hd hx)
      (fun y h => c.restored_strip_of_none hd h.1 h.2) hy
  case keep =>
    refine Formatter.outcome_congr reformat rfl ?_ (fun y ⟨hr, ht, hl⟩ => ?_) hy
    · rw [Config.prepared_of_not_blank _ hx hb, Config.prepared_of_not_blank _ hx hb]
      rfl
    · have hg : ∀ l ∈ split y, isGap l = false := fun l h => Bool.or_eq_false_iff.mpr (hl l h)
      rw [Config.restored_of_text _ input hr ht hg, Config.restored_of_text _ input hr ht hg]
      rfl

theorem idle_features_crlf :
    let c : Config := { lineEnding := .crlf, stripDirectives := true, parseUnicode := true }
    let reformat : Reformat := fun prepared => .ok (prepared ++ Utf8.ofString "c: 3\n")
    let input := Utf8.ofString "a: 1\r\nb: 2\n"
    let run := fun k : Config => ((Formatter.ofConfig k reformat).format input).outcome
    Terminated (stripReturns input) ∧
    run c = .done (Utf8.ofString "a: 1\r\nb: 2\r\nc: 3\r\n") ∧
    run { c with stripDirectives := false } = run c ∧
    run { c with retainLineBreaksSingle := true } = run c ∧
    run { c with parseUnicode := false } = run c := by
  intro c reformat input run
  have hx : Terminated (stripReturns input) := by decide +kernel
  obtain ⟨hstrip, hkeep, hread⟩ := idle_features c reformat input hx
  have hout : run { c with parseUnicode := false } =
      .done (Utf8.ofString "a: 1\r\nb: 2\r\nc: 3\r\n") := by decide +kernel
  have hstrip := hstrip (by decide +kernel) <| Formatter.yields_iff.mpr fun y hy => by
    obtain rfl := Except.ok.inj hy
    decide +kernel
  have hkeep := hkeep (by decide +kernel) <| Formatter.yields_iff.mpr fun y hy => by
    obtain rfl := Except.ok.inj hy
    decide +kernel
  have hread := hread fun t ht => by
    obtain rfl := Outcome.done.inj (hout.symm.trans ht)
    decide +kernel
  exact ⟨hx, hread.trans hout, hstrip.symm, hkeep false true, hread.symm⟩

end YamlLayout
