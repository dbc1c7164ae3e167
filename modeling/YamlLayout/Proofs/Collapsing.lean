import Mathlib.Data.List.Destutter
import YamlLayout.Proofs.Prepared

/-! The two modes of keeping blank lines, side by side. A document finished in the single
mode is the one finished in the other mode without each empty line that directly follows
another: every run of empty lines is still there, as one of them. -/
namespace YamlLayout
namespace LineBreaks
open Lines

def Apart (l m : Bytes) : Prop := l ≠ [] ∨ m ≠ []

instance : DecidableRel Apart := fun _ _ => inferInstanceAs (Decidable (_ ∨ _))

theorem apart_of_ne_nil {l : Bytes} (h : l ≠ []) (m : Bytes) : Apart l m ∧ Apart m l :=
  ⟨Or.inl h, Or.inr h⟩

theorem not_apart_nil : ¬ Apart [] [] := by simp [Apart]

theorem destutter_text {l : Bytes} (h : l ≠ []) (ls : List Bytes) :
    (l :: ls).destutter Apart = l :: ls.destutter Apart := by
  cases ls with
  | nil => rfl
  | cons m ls => exact List.destutter'_cons_pos ls (apart_of_ne_nil h m).1

theorem destutter_nil_nil (ls : List Bytes) :
    ([] :: [] :: ls).destutter Apart = ([] :: ls).destutter Apart :=
  List.destutter'_cons_neg ls not_apart_nil

theorem destutter_nil_cons {ls : List Bytes} (h : ls.head? ≠ some []) :
    ([] :: ls).destutter Apart = [] :: ls.destutter Apart := by
  cases ls with
  | nil => rfl
  | cons l ls =>
    have hl : l ≠ [] := by simpa using h
    exact List.destutter'_cons_pos ls (apart_of_ne_nil hl []).2

theorem destutter_gaps (ls : List Bytes) :
    ([] :: ls.map cleared).destutter Apart =
      [] :: ((ls.dropWhile isGap).map cleared).destutter Apart := by
  induction ls with
  | nil => rfl
  | cons l ls ih =>
    cases hg : isGap l with
    | true =>
      rw [List.map_cons, cleared_gap hg, destutter_nil_nil, ih, List.dropWhile_cons_of_pos hg]
    | false =>
      obtain ⟨hc, hne⟩ := cleared_text hg
      rw [List.dropWhile_cons_of_neg (by simp [hg]), List.map_cons, hc,
        destutter_nil_cons (by simpa using hne)]

theorem collapsed_eq_destutter (ls : List Bytes) :
    collapsed ls = (ls.map cleared).destutter Apart := by
  induction ls using collapsed.induct with
  | case1 => simp [collapsed]
  | case2 l ls hg ih => rw [collapsed_gap hg, ih, List.map_cons, cleared_gap hg, destutter_gaps]
  | case3 l ls hg ih =>
    have hl : isGap l = false := by simpa using hg
    obtain ⟨hc, hne⟩ := cleared_text hl
    rw [collapsed_text hl, ih, List.map_cons, hc, destutter_text hne]

theorem release_single_eq_destutter (ls : List Bytes) :
    release .single false ls = (release .all false ls).destutter Apart := by
  rw [release_eq_settled, release_all]
  exact collapsed_eq_destutter _

/-- Lines with content, each behind a run of empty ones, and a run behind them all. A run
of `n` empty lines is written with `f n` of them. -/
def spaced (f : Nat → Nat) (runs : List (Nat × Bytes)) (last : Nat) : List Bytes :=
  runs.flatMap (fun r => List.replicate (f r.1) [] ++ [r.2]) ++ List.replicate (f last) []

theorem spaced_cons (f : Nat → Nat) (n : Nat) (l : Bytes) (runs : List (Nat × Bytes))
    (last : Nat) : spaced f ((n, l) :: runs) last =
      List.replicate (f n) [] ++ l :: spaced f runs last := by
  simp [spaced]

theorem exists_spaced (ls : List Bytes) :
    ∃ runs last, (∀ r ∈ runs, r.2 ≠ []) ∧ ls = spaced id runs last := by
  induction ls with
  | nil => exact ⟨[], 0, by simp, rfl⟩
  | cons l ls ih =>
    obtain ⟨runs, last, hr, rfl⟩ := ih
    by_cases hl : l = []
    · subst hl
      cases runs with
      | nil => exact ⟨[], last + 1, by simp, rfl⟩
      | cons r runs => exact ⟨(r.1 + 1, r.2) :: runs, last, by simpa using hr, rfl⟩
    · refine ⟨(0, l) :: runs, last, ?_, rfl⟩
      exact List.forall_mem_cons.mpr ⟨hl, hr⟩

theorem destutter_run (n : Nat) {ls : List Bytes} (h : ls.head? ≠ some []) :
    (List.replicate n [] ++ ls).destutter Apart =
      List.replicate (min 1 n) [] ++ ls.destutter Apart := by
  induction n with
  | zero => rfl
  | succ n ih =>
    cases n with
    | zero => exact destutter_nil_cons h
    | succ n =>
      have hmin : min 1 (n + 1 + 1) = min 1 (n + 1) := by omega
      rw [List.replicate_succ, List.cons_append] at ih
      rw [List.replicate_succ, List.replicate_succ, List.cons_append, List.cons_append,
        destutter_nil_nil, ih, hmin]

theorem destutter_spaced {runs : List (Nat × Bytes)} (h : ∀ r ∈ runs, r.2 ≠ []) (last : Nat) :
    (spaced id runs last).destutter Apart = spaced (min 1) runs last := by
  induction runs with
  | nil =>
    have hlast := destutter_run last (by simp : ([] : List Bytes).head? ≠ some [])
    simpa [spaced] using hlast
  | cons r runs ih =>
    obtain ⟨hr, hrest⟩ := List.forall_mem_cons.mp h
    rw [spaced_cons, id_eq, destutter_run r.1 (by simpa using hr), destutter_text hr, ih hrest,
      spaced_cons]

end LineBreaks

open Lines LineBreaks

theorem Config.placed_congr {c d : Config} (he : d.lineEnding = c.lineEnding)
    (hs : d.stripDirectives = c.stripDirectives) (directives : List Directive) (y : Bytes) :
    d.placed directives y = c.placed directives y := by
  simp only [placed, he, hs]

/-- Keeping each run of blank lines as one is keeping all of them, and then leaving out each
empty line that directly follows another; the reformat is given the same text, and whether a
run fails does not change. -/
theorem single_collapses_all (c d : Config) (hc : c.lineBreakMode = some .all)
    (hd : d.lineBreakMode = some .single) (he : d.lineEnding = c.lineEnding)
    (hs : d.stripDirectives = c.stripDirectives) (huc : c.parseUnicode = false)
    (hud : d.parseUnicode = false) (reformat : Reformat) (input : Bytes) :
    let all := Formatter.ofConfig c reformat
    let single := Formatter.ofConfig d reformat
    let separator := c.lineEnding.separator
    ∃ prepared, (all.prepare input).outcome = .done prepared ∧
      (single.prepare input).outcome = .done prepared ∧
      (∀ e, reformat prepared = .error e →
        (all.format input).outcome = .failed e ∧ (single.format input).outcome = .failed e) ∧
      (∀ y, reformat prepared = .ok y → ∃ ls : List Bytes,
        (∀ l ∈ ls, lineFeed ∉ l) ∧
        (all.format input).outcome = .done (terminate separator ls) ∧
        (single.format input).outcome = .done (terminate separator (ls.destutter Apart)) ∧
        (ls.destutter Apart).IsChain Apart ∧
        ∃ runs last, (∀ r ∈ runs, r.2 ≠ []) ∧ ls = spaced id runs last ∧
          ls.destutter Apart = spaced (min 1) runs last) := by
  intro all single separator
  have hprepared : d.prepared input = c.prepared input :=
    Config.prepared_congr hs (by rw [hc, hd]; rfl) input
  refine ⟨c.prepared input, Formatter.prepare_outcome c reformat input,
    hprepared ▸ Formatter.prepare_outcome d reformat input, fun failure hf => ?_, fun y hy => ?_⟩
  · exact ⟨Formatter.format_of_error hf, Formatter.format_of_error (hprepared ▸ hf)⟩
  · generalize hds : Directive.recorded (split (stripReturns input)) = ds
    -- both runs take their lines from one text, in which gaps are not yet looked at
    have hall := Formatter.format_done huc hy
    have hsingle := Formatter.format_done hud (hprepared ▸ hy)
    rw [hds, Config.restored_some hc] at hall
    rw [hds, Config.restored_some hd, Config.placed_congr he hs, he,
      release_single_eq_destutter] at hsingle
    obtain ⟨runs, last, hr, hls⟩ := exists_spaced (release .all false (split (c.placed ds y)))
    refine ⟨_, forall_release (by simp) .all fun l => lineFeed_not_mem_of_mem_split, hall,
      hsingle, List.isChain_destutter Apart _, runs, last, hr, hls, ?_⟩
    rw [hls]
    exact destutter_spaced hr last

theorem single_collapses_all_crlf :
    let c : Config := { lineEnding := .crlf, retainLineBreaks := true, stripDirectives := true }
    let d : Config := { c with retainLineBreaksSingle := true }
    let input := Utf8.ofString "%A\n\n \n%B\nb\n"
    let y := Utf8.ofString ("#magic___^_^___line\r\n\n\t\n  #magic___^_^___line!\nb\rc\r\r\n"
      ++ "#magic___^_^___line\n\n#magic___^_^___line\n\n#magic___^_^___line")
    let reformat : Reformat := fun _ => .ok y
    let out := Utf8.ofString "%A\r\n\r\n%B\r\n\r\nb\rc\r\r\r\n\r\n\r\n\r\n"
    c.lineBreakMode = some .all ∧ d.lineBreakMode = some .single ∧
    d.lineEnding = c.lineEnding ∧ d.stripDirectives = c.stripDirectives ∧
    c.parseUnicode = false ∧ d.parseUnicode = false ∧
    ((Formatter.ofConfig c reformat).format input).outcome = .done out ∧
    ((Formatter.ofConfig d reformat).format input).outcome =
      .done (Utf8.ofString "%A\r\n\r\n%B\r\n\r\nb\rc\r\r\r\n\r\n") := by
  intro c d input y reformat out
  have hout : ((Formatter.ofConfig c reformat).format input).outcome = .done out := by
    decide +kernel
  obtain ⟨prepared, -, -, -, h⟩ :=
    single_collapses_all c d rfl rfl rfl rfl rfl rfl reformat input
  obtain ⟨ls, hfeed, hall, hsingle, -, -⟩ := h y rfl
  have hls : split out = ls := by
    rw [← Outcome.done.inj (hall.symm.trans hout)]
    exact split_terminate_return ls hfeed
  have hlines : terminate c.lineEnding.separator ((split out).destutter Apart) =
      Utf8.ofString "%A\r\n\r\n%B\r\n\r\nb\rc\r\r\r\n\r\n" := by
    decide +kernel
  rw [← hls, hlines] at hsingle
  exact ⟨rfl, rfl, rfl, rfl, rfl, rfl, hout, hsingle⟩

end YamlLayout
