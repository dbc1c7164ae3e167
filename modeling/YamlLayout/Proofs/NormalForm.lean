import YamlLayout.Proofs.Formatter

/-! What a run that reformats nothing makes of a document. Its lines come back in
order; where blank lines are kept, each gap is an empty line, in the single mode each
run of gaps is one; and no other line changes. -/
namespace YamlLayout
open Lines LineBreaks

theorem LineBreaks.dropWhile_append_text {l : Bytes} (h : isGap l = false)
    (before after : List Bytes) :
    (before ++ l :: after).dropWhile isGap = before.dropWhile isGap ++ l :: after := by
  induction before with
  | nil => simp [h]
  | cons b before ih =>
    cases hb : isGap b with
    | true => simpa [List.dropWhile_cons, hb] using ih
    | false => simp [hb]

theorem LineBreaks.collapsed_append_text {l : Bytes} (h : isGap l = false)
    (before after : List Bytes) :
    collapsed (before ++ l :: after) = collapsed before ++ l :: collapsed after := by
  induction before using collapsed.induct with
  | case1 => simp [collapsed_text h, collapsed]
  | case2 b before hb ih =>
    rw [List.cons_append, collapsed_gap hb, collapsed_gap hb, dropWhile_append_text h, ih]
    rfl
  | case3 b before hb ih =>
    have hb : isGap b = false := by simpa using hb
    rw [List.cons_append, collapsed_text hb, collapsed_text hb, ih]
    rfl

theorem LineBreaks.settled_append_text (mode : LineBreakMode) {l : Bytes} (h : isGap l = false)
    (before after : List Bytes) :
    settled mode (before ++ l :: after) = settled mode before ++ l :: settled mode after := by
  cases mode with
  | all => simp [settled, cleared, h]
  | single => exact collapsed_append_text h before after

namespace Config

/-- The lines of a document, with its gaps as they leave. -/
def normalLines (c : Config) (ls : List Bytes) : List Bytes :=
  match c.lineBreakMode with
  | none => ls
  | some mode => settled mode ls

/-- A feature that cuts the text into lines terminates the last one too. -/
def normalForm (c : Config) (input : Bytes) : Bytes :=
  if c.stripDirectives = false ∧ c.lineBreakMode = none then
    c.lineEnding.write (stripReturns input)
  else terminate c.lineEnding.separator (c.normalLines (split (stripReturns input)))

theorem normalLines_bare (c : Config) {ls : List Bytes} (h : ∀ l ∈ ls, Bare l) :
    ∀ l ∈ c.normalLines ls, Bare l := by
  unfold normalLines
  split
  · exact h
  · exact settled_bare _ h

theorem normalLines_append_text (c : Config) {l : Bytes} (h : isGap l = false)
    (before after : List Bytes) :
    c.normalLines (before ++ l :: after) = c.normalLines before ++ l :: c.normalLines after := by
  unfold normalLines
  split
  · rfl
  · exact settled_append_text _ h before after

theorem length_normalLines {c : Config} (h : c.lineBreakMode ≠ some .single) (ls : List Bytes) :
    (c.normalLines ls).length = ls.length := by
  unfold normalLines
  split
  · rfl
  · next mode hm =>
    cases mode with
    | all => simp [settled]
    | single => exact absurd hm h

theorem split_normalForm (c : Config) (input : Bytes) :
    split (c.normalForm input) = c.normalLines (split (stripReturns input)) := by
  unfold normalForm
  split
  · next h =>
    rw [c.lineEnding.split_write (carriageReturn_not_mem_stripReturns input)]
    simp [normalLines, h.2]
  · exact c.lineEnding.split_terminate_bare (c.normalLines_bare fun l => bare_of_mem_source)

theorem woven_preparedLines_sameText (c : Config) (ls : List Bytes) :
    List.Forall₂ SameText ls (c.woven (Directive.recorded ls) (c.preparedLines ls)) := by
  have hk : List.Forall₂ SameText (c.keptLines ls) (c.preparedLines ls) := by
    unfold preparedLines
    split
    · exact hold_sameText {} _
    · exact List.forall₂_same.mpr fun l _ => SameText.refl l
  have hw : List.Forall₂ SameText (c.woven (Directive.recorded ls) (c.keptLines ls))
      (c.woven (Directive.recorded ls) (c.preparedLines ls)) :=
    c.woven_forall₂ (fun d _ => SameText.refl d.content) hk
  rwa [woven_keptLines] at hw

theorem not_isBlank_of_mem_recorded {ls : List Bytes} {d : Directive}
    (h : d ∈ Directive.recorded ls) : isBlank d.content = false :=
  Directive.isBlank_of_isDirective (Directive.isDirective_of_mem_numbered h)

theorem restored_prepared (c : Config) (input : Bytes) :
    c.restored (Directive.recorded (split (stripReturns input))) (c.prepared input) =
      c.normalForm input := by
  by_cases hn : c.stripDirectives = false ∧ c.lineBreakMode = none
  · rw [normalForm, if_pos hn, prepared_of_neither hn.1 hn.2, restored_none hn.2,
      placed_of_not_strip hn.1]
  · rw [normalForm, if_neg hn, prepared_of_lines (c.lines_or_neither.resolve_right hn)]
    generalize hL : split (stripReturns input) = L
    have hL' : ∀ l ∈ L, Bare l := fun l hm => bare_of_mem_source (hL ▸ hm)
    have hp := c.preparedLines_bare hL'
    have hplaced := c.placed_terminate (Directive.recorded L) hp
    cases hm : c.lineBreakMode with
    | none =>
      rw [restored_none hm, hplaced]
      simp [normalLines, preparedLines, hm, woven_keptLines]
    | some mode =>
      have hd : ∀ d ∈ Directive.recorded L, Bare d.content := fun d hd =>
        recorded_content_bare (hL.symm ▸ hd)
      have hb : ∀ l ∈ c.preparedLines L, isBlank l = false := by
        simp only [preparedLines, hm, Option.isSome_some, if_true]
        exact hold_not_blank {} _
      -- no line of the woven text is blank, so all of them are released
      have hall : ∀ l ∈ c.woven (Directive.recorded L) (c.preparedLines L), isBlank l = false :=
        c.forall_woven (fun d => not_isBlank_of_mem_recorded) hb
      rw [restored_some hm, hplaced, c.lineEnding.split_terminate_bare (c.forall_woven hd hp),
        release_of_not_blank mode hall, settled_congr mode (c.woven_preparedLines_sameText L),
        normalLines, hm]

end Config

theorem Formatter.format_passthrough {c : Config} (hc : c.parseUnicode = false) (input : Bytes) :
    ((ofConfig c .passthrough).format input).outcome = .done (c.normalForm input) := by
  rw [← c.restored_prepared]
  exact format_done hc rfl

/-- Whatever the settings, a run without a reformat succeeds with the normal form of the
document. A line that is no gap, and so every directive, keeps its place among the
lines around it, and its very number unless runs of gaps are made one. -/
theorem passthrough_format (c : Config) (hc : c.parseUnicode = false) (input : Bytes) :
    ((Formatter.ofConfig c .passthrough).format input).outcome = .done (c.normalForm input) ∧
    split (c.normalForm input) = c.normalLines (split (stripReturns input)) ∧
    (∀ before l after, split (stripReturns input) = before ++ l :: after →
      (Directive.isDirective l = true ∨ isGap l = false) →
      split (c.normalForm input) = c.normalLines before ++ l :: c.normalLines after) ∧
    (c.lineBreakMode ≠ some .single → ∀ (n : Nat) (l : Bytes),
      (split (stripReturns input))[n]? = some l → (Directive.isDirective l = true ∨ isGap l = false) →
      (split (c.normalForm input))[n]? = some l) := by
  have hplace : ∀ before l after, split (stripReturns input) = before ++ l :: after →
      (Directive.isDirective l = true ∨ isGap l = false) →
      split (c.normalForm input) = c.normalLines before ++ l :: c.normalLines after := by
    intro before l after he hl
    have hg : isGap l = false := hl.elim Directive.isGap_of_isDirective id
    rw [c.split_normalForm, he, c.normalLines_append_text hg]
  refine ⟨?_, c.split_normalForm input, hplace, ?_⟩
  · have hf := Formatter.format_outcome c .passthrough input
    simp only [Reformat.passthrough, Config.finished, hc, c.restored_prepared] at hf
    exact hf
  · intro hm n l hn hl
    obtain ⟨hlt, he⟩ := List.getElem?_eq_some_iff.mp hn
    have hsplit : split (stripReturns input) =
        (split (stripReturns input)).take n ++ l :: (split (stripReturns input)).drop (n + 1) := by
      rw [← he, List.getElem_cons_drop, List.take_append_drop]
    have hlen := Config.length_normalLines hm ((split (stripReturns input)).take n)
    rw [List.length_take, Nat.min_eq_left (Nat.le_of_lt hlt)] at hlen
    rw [hplace _ l _ hsplit hl, List.getElem?_append_right (by omega), hlen]
    simp

theorem passthrough_format_single :
    let c : Config :=
      { lineEnding := .crlf, retainLineBreaksSingle := true, stripDirectives := true }
    let input := Utf8.ofString "a\n \n  #magic___^_^___line!\r\n%b\n\nc"
    c.parseUnicode = false ∧
    ((Formatter.ofConfig c .passthrough).format input).outcome =
      .done (Utf8.ofString "a\r\n\r\n%b\r\n\r\nc\r\n") ∧
    split (c.normalForm input) =
      c.normalLines ((split (stripReturns input)).take 3) ++
        Utf8.ofString "%b" :: c.normalLines ((split (stripReturns input)).drop 4) := by
  intro c input
  have hn : c.normalForm input = Utf8.ofString "a\r\n\r\n%b\r\n\r\nc\r\n" := by
    decide +kernel
  obtain ⟨hrun, -, hplace, -⟩ := passthrough_format c rfl input
  exact ⟨rfl, hn ▸ hrun, hplace _ _ _ (by decide +kernel) (Or.inl (by decide))⟩

end YamlLayout
