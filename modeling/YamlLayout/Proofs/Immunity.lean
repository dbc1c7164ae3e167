import Mathlib.Data.List.DropRight
import YamlLayout.Proofs.Prepared

/-! A reformat may put in blank lines of its own and indent placeholders anew: where blank
lines are kept, the finished document is that of a run that reformats nothing. Among
directives, whose places are counted in lines, only the indentation is free. -/
namespace YamlLayout
namespace LineBreaks
open Lines

/-- A line and the same line or, if it is a placeholder, one with other spaces before it. -/
def Reindented (l m : Bytes) : Prop :=
  m = l ∨ isPlaceholder l = true ∧ ∃ width, m = List.replicate width space ++ trimIndent l

/-- Lines and the same lines with their placeholders indented anew and, if that is allowed,
with blank lines put in anywhere. -/
inductive Loosened (inserting : Bool) : List Bytes → List Bytes → Prop where
  | nil : Loosened inserting [] []
  | line {l m : Bytes} {ls ms : List Bytes} (hl : Reindented l m)
    (h : Loosened inserting ls ms) : Loosened inserting (l :: ls) (m :: ms)
  | blank {m : Bytes} {ls ms : List Bytes} (hi : inserting = true) (hm : isBlank m = true)
    (h : Loosened inserting ls ms) : Loosened inserting ls (m :: ms)

theorem Reindented.isPlaceholder {l m : Bytes} (h : Reindented l m) :
    isPlaceholder m = isPlaceholder l := by
  obtain rfl | ⟨-, width, rfl⟩ := h
  · rfl
  · have ht : trimIndent (trimIndent l) = trimIndent l := List.dropWhile_idempotent ..
    rw [LineBreaks.isPlaceholder, trimIndent_replicate, ht]
    rfl

theorem Reindented.not_mem {l m : Bytes} (h : Reindented l m) {b : UInt8} (hs : b ≠ space)
    (hb : b ∉ l) : b ∉ m := by
  obtain rfl | ⟨-, width, rfl⟩ := h
  · exact hb
  · intro hm
    cases List.mem_append.mp hm with
    | inl hm => exact hs (List.eq_of_mem_replicate hm)
    | inr hm => exact hb ((List.dropWhile_sublist _).subset hm)

theorem Reindented.bare {l m : Bytes} (h : Reindented l m) (hl : Bare l) : Bare m where
  no_feed := h.not_mem (by decide) hl.no_feed
  no_return := h.not_mem (by decide) hl.no_return

theorem Loosened.refl (inserting : Bool) (ls : List Bytes) : Loosened inserting ls ls := by
  induction ls with
  | nil => exact nil
  | cons l ls ih => exact line (Or.inl rfl) ih

theorem loosened_false_iff {ls ms : List Bytes} :
    Loosened false ls ms ↔ List.Forall₂ Reindented ls ms := by
  constructor
  · intro h
    induction h with
    | nil => exact List.Forall₂.nil
    | line hl _ ih => exact List.Forall₂.cons hl ih
    | blank hi => exact absurd hi (by simp)
  · intro h
    induction h with
    | nil => exact Loosened.nil
    | cons hl _ ih => exact Loosened.line hl ih

theorem Loosened.release {inserting : Bool} {ls ms : List Bytes} (h : Loosened inserting ls ms)
    (mode : LineBreakMode) (afterGap : Bool) :
    release mode afterGap ms = release mode afterGap ls := by
  induction h generalizing afterGap with
  | nil => rfl
  | @line l m ls ms hl _ ih =>
    cases hp : LineBreaks.isPlaceholder l with
    | true =>
      have hm := hl.isPlaceholder.trans hp
      simp [LineBreaks.release, not_blank_of_isPlaceholder hp, not_blank_of_isPlaceholder hm, hp,
        hm, ih]
    | false =>
      obtain rfl : m = l := hl.resolve_right fun h => by simp [hp] at h
      simp only [LineBreaks.release, ih]
  | blank hi hm _ ih => simpa [LineBreaks.release, hm] using ih afterGap

/-- A line as it may read once its terminator was written and taken off again. -/
def Reads (m l : Bytes) : Prop := l = m ∨ l = dropFinalReturn m

theorem reads_split_write (e : LineEnding) (c : Bytes) :
    List.Forall₂ Reads (cut c) (split (e.write c)) := by
  cases e with
  | lf => exact List.forall₂_map_right_iff.mpr (List.forall₂_same.mpr fun _ _ => Or.inr rfl)
  | crlf =>
    change List.Forall₂ Reads (cut c) (split (insertReturns c))
    induction c using byLines with
    | nil => exact List.Forall₂.nil
    | last l hl hne =>
      rw [insertReturns_of_not_mem hl, split, cut_last l hl hne]
      exact List.Forall₂.cons (Or.inr rfl) List.Forall₂.nil
    | line l r hl ih =>
      rw [insertReturns_line l r hl, split_line_return l _ hl, cut_line l r hl]
      exact List.Forall₂.cons (Or.inl rfl) ih

theorem reads_split_terminate (e : LineEnding) {ms : List Bytes} (h : ∀ m ∈ ms, lineFeed ∉ m) :
    List.Forall₂ Reads ms (split (terminate e.separator ms)) := by
  rw [e.split_terminate h, List.forall₂_map_right_iff, List.forall₂_same]
  intro m _
  cases e with
  | lf => exact Or.inr rfl
  | crlf => exact Or.inl rfl

theorem Loosened.reads {inserting : Bool} {ls ms ks : List Bytes}
    (h : Loosened inserting ls ms) (hb : ∀ l ∈ ls, Bare l) (hr : List.Forall₂ Reads ms ks) :
    Loosened inserting ls ks := by
  induction h generalizing ks with
  | nil =>
    cases hr
    exact nil
  | @line l m ls ms hl _ ih =>
    obtain ⟨hbl, hbls⟩ := List.forall_mem_cons.mp hb
    cases hr with
    | @cons _ k _ ks hk hr =>
      have hdrop := dropFinalReturn_of_not_mem (hl.bare hbl).no_return
      obtain rfl : k = m := hk.elim id fun h => h.trans hdrop
      exact line hl (ih hbls hr)
  | @blank m ls ms hi hm _ ih =>
    cases hr with
    | @cons _ k _ ks hk hr =>
      have hkb : isBlank k = true := by
        cases hk with
        | inl e => rwa [e]
        | inr e => rwa [e, isBlank_dropFinalReturn]
      exact blank hi hkb (ih hb hr)

end LineBreaks

open Lines LineBreaks

theorem Config.restored_loosened {c : Config} {mode : LineBreakMode}
    (hm : c.lineBreakMode = some mode) {directives : List Directive}
    (hd : ∀ d ∈ directives, Bare d.content) {p y : Bytes} (hp : carriageReturn ∉ p)
    (h : Loosened (!c.stripDirectives) (cut p) (cut y)) :
    c.restored directives y = terminate c.lineEnding.separator
      (release mode false (c.woven directives (cut p))) := by
  have hbare : ∀ l ∈ cut p, Bare l := fun l hl =>
    ⟨lineFeed_not_mem_of_mem_cut hl, fun hr => hp (mem_of_mem_cut hl hr)⟩
  have hwritten := h.reads hbare (reads_split_write c.lineEnding y)
  rw [restored_some hm]
  cases hs : c.stripDirectives with
  | true =>
    rw [hs] at hwritten
    -- directives stand at the same places among as many lines
    have hwoven := loosened_false_iff.mpr (c.woven_forall₂ (fun d _ => Or.inl rfl)
      (loosened_false_iff.mp hwritten) : List.Forall₂ Reindented (c.woven directives _) _)
    have hfeed : ∀ l ∈ c.woven directives (split (c.lineEnding.write y)), lineFeed ∉ l :=
      c.forall_woven (fun d hm => (hd d hm).no_feed) fun _ => lineFeed_not_mem_of_mem_split
    have hread := hwoven.reads (c.forall_woven hd hbare)
      (reads_split_terminate c.lineEnding hfeed)
    rw [placed_of_strip hs, hread.release mode false]
  | false =>
    rw [placed_of_not_strip hs, hwritten.release mode false]
    simp [woven, hs]

/-- Where blank lines are kept, a run ends as if its reformat had neither put in blank lines
nor changed how placeholders are indented. Where directives are taken out, this holds of the
indentation. -/
theorem retention_immune (c : Config) (hm : c.lineBreakMode.isSome = true)
    (hu : c.parseUnicode = false) (reformat : Reformat) (input prepared y : Bytes)
    (hp : ((Formatter.ofConfig c reformat).prepare input).outcome = .done prepared)
    (hy : reformat prepared = .ok y)
    (h : Loosened (!c.stripDirectives) (cut prepared) (cut y)) :
    ∃ out, ((Formatter.ofConfig c reformat).format input).outcome = .done out ∧
      ((Formatter.ofConfig c .passthrough).format input).outcome = .done out := by
  obtain rfl : c.prepared input = prepared :=
    Outcome.done.inj ((Formatter.prepare_outcome c reformat input).symm.trans hp)
  obtain ⟨mode, hmode⟩ := Option.isSome_iff_exists.mp hm
  have hd : ∀ d ∈ Directive.recorded (split (stripReturns input)), Bare d.content :=
    fun d => Config.recorded_content_bare
  have hr := c.carriageReturn_not_mem_prepared input
  have hsame := (Config.restored_loosened hmode hd hr h).trans
    (Config.restored_loosened hmode hd hr (Loosened.refl _ _)).symm
  exact ⟨_, Formatter.format_done hu hy, hsame ▸ Formatter.format_done hu rfl⟩

theorem retention_immune_run :
    let c : Config := { lineEnding := .crlf, retainLineBreaksSingle := true }
    let input := Utf8.ofString "a\n\n \nb"
    let prepared := Utf8.ofString "a\n#magic___^_^___line\n #magic___^_^___line\nb\n"
    let y := Utf8.ofString
      "\u3000\r\na\n  #magic___^_^___line\n\t\n\n#magic___^_^___line\nb\n \r"
    let reformat : Reformat := fun _ => .ok y
    c.lineBreakMode.isSome = true ∧ c.parseUnicode = false ∧
    ((Formatter.ofConfig c reformat).prepare input).outcome = .done prepared ∧
    reformat prepared = .ok y ∧
    Loosened (!c.stripDirectives) (cut prepared) (cut y) ∧
    ((Formatter.ofConfig c reformat).format input).outcome =
      .done (Utf8.ofString "a\r\n\r\nb\r\n") := by
  intro c input prepared y reformat
  have hp : ((Formatter.ofConfig c reformat).prepare input).outcome = .done prepared := by
    decide +kernel
  have hprepared : cut prepared = [Utf8.ofString "a", Utf8.ofString "#magic___^_^___line",
      Utf8.ofString " #magic___^_^___line", Utf8.ofString "b"] := by decide +kernel
  have hy : cut y = [Utf8.ofString "\u3000\r", Utf8.ofString "a",
      Utf8.ofString "  #magic___^_^___line", Utf8.ofString "\t", [],
      Utf8.ofString "#magic___^_^___line", Utf8.ofString "b", Utf8.ofString " \r"] := by
    decide +kernel
  have h : Loosened (!c.stripDirectives) (cut prepared) (cut y) := by
    rw [hprepared, hy]
    refine .blank rfl (by decide +kernel) (.line (Or.inl rfl) (.line (Or.inr ?_) ?_))
    · exact ⟨by decide, 2, by decide⟩
    refine .blank rfl (by decide) (.blank rfl (by decide) (.line (Or.inr ?_) ?_))
    · exact ⟨by decide, 0, by decide⟩
    exact .line (Or.inl rfl) (.blank rfl (by decide) .nil)
  have hplain : ((Formatter.ofConfig c .passthrough).format input).outcome =
      .done (Utf8.ofString "a\r\n\r\nb\r\n") := by decide +kernel
  obtain ⟨out, hrun, hpass⟩ := retention_immune c rfl rfl reformat input prepared y hp rfl h
  obtain rfl := Outcome.done.inj (hpass.symm.trans hplain)
  exact ⟨rfl, rfl, hp, rfl, h, hrun⟩

end YamlLayout
