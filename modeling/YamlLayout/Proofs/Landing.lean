import YamlLayout.Proofs.NormalForm

/-! Where directives land among the lines of a reformatted text: each on its own number
or, where the text is too short for that, right behind all lines and the directives
before it. The other lines keep their order. -/
namespace YamlLayout

/-- The members of a list, counted from `n`, whose numbers are not among these. -/
def without {α : Type} (numbers : List Nat) (n : Nat) (xs : List α) : List α :=
  ((xs.zipIdx n).filter fun p => !numbers.contains p.2).map Prod.fst

section without
variable {α β : Type}

theorem without_cons_mem {numbers : List Nat} {n : Nat} (h : n ∈ numbers) (x : α) (xs : List α) :
    without numbers n (x :: xs) = without numbers (n + 1) xs := by
  simp [without, h]

theorem without_cons_not_mem {numbers : List Nat} {n : Nat} (h : n ∉ numbers) (x : α)
    (xs : List α) : without numbers n (x :: xs) = x :: without numbers (n + 1) xs := by
  simp [without, h]

theorem without_map (f : α → β) (numbers : List Nat) (n : Nat) (xs : List α) :
    without numbers n (xs.map f) = (without numbers n xs).map f := by
  induction xs generalizing n with
  | nil => rfl
  | cons x xs ih =>
    rw [List.map_cons]
    by_cases h : n ∈ numbers
    · rw [without_cons_mem h, without_cons_mem h, ih]
    · rw [without_cons_not_mem h, without_cons_not_mem h, ih, List.map_cons]

theorem without_past {k n : Nat} (h : k < n) (numbers : List Nat) (xs : List α) :
    without (k :: numbers) n xs = without numbers n xs := by
  induction xs generalizing n with
  | nil => rfl
  | cons x xs ih =>
    have hr := ih (Nat.lt_succ_of_lt h)
    by_cases hm : n ∈ numbers
    · rw [without_cons_mem (List.mem_cons_of_mem k hm), without_cons_mem hm, hr]
    · have hk : n ∉ k :: numbers :=
        List.not_mem_cons_of_ne_of_not_mem (Nat.ne_of_gt h) hm
      rw [without_cons_not_mem hk, without_cons_not_mem hm, hr]

theorem map_zipIdx_add (f : α → Nat → β) (m s : Nat) (xs : List α) :
    ((xs.zipIdx s).map fun (x, i) => f x (m + i)) =
      (xs.zipIdx (m + s)).map fun (x, k) => f x k := by
  induction xs generalizing s with
  | nil => rfl
  | cons x xs ih =>
    rw [List.zipIdx_cons, List.map_cons, ih, ← Nat.add_assoc]
    rfl

end without

namespace Directive
open Lines LineBreaks

/-- Directives with the numbers at which they land in a text whose next line would be `next`. -/
def landed (next : Nat) (ds : List Directive) : List Directive :=
  (ds.zipIdx next).map fun (d, k) => ⟨min d.line k, d.content⟩

def landings (next : Nat) (ds : List Directive) : List Nat := (landed next ds).map line

theorem landed_cons (next : Nat) (d : Directive) (ds : List Directive) :
    landed next (d :: ds) = ⟨min d.line next, d.content⟩ :: landed (next + 1) ds := rfl

theorem landings_cons (next : Nat) (d : Directive) (ds : List Directive) :
    landings next (d :: ds) = min d.line next :: landings (next + 1) ds := rfl

/-- Counted by rank, the directives behind a text of `m` lines start at `m + 1`. -/
theorem landed_eq (m s : Nat) (ds : List Directive) :
    (ds.zipIdx s).map (fun (d, i) => ⟨min d.line (m + i), d.content⟩) = landed (m + s) ds :=
  map_zipIdx_add (fun d k => Directive.mk (min d.line k) d.content) m s ds

theorem landings_eq (m s : Nat) (ds : List Directive) :
    ((ds.zipIdx s).map fun (d, i) => min d.line (m + i)) = landings (m + s) ds := by
  rw [landings, ← landed_eq, List.map_map]
  rfl

theorem landed_of_le {next : Nat} {ds : List Directive}
    (h : ∀ (i : Nat) (d : Directive), ds[i]? = some d → d.line ≤ next + i) :
    landed next ds = ds := by
  induction ds generalizing next with
  | nil => rfl
  | cons d ds ih =>
    have hd : d.line ≤ next := h 0 d rfl
    have hr : ∀ (i : Nat) (e : Directive), ds[i]? = some e → e.line ≤ next + 1 + i := by
      intro i e he
      have := h (i + 1) e he
      omega
    rw [landed_cons, Nat.min_eq_left hd, ih hr]

theorem le_of_mem_landings {n next : Nat} {ds : List Directive} (hd : ∀ d ∈ ds, n ≤ d.line)
    (hn : n ≤ next) {k : Nat} (hk : k ∈ landings next ds) : n ≤ k := by
  induction ds generalizing next with
  | nil => simp [landings, landed] at hk
  | cons d ds ih =>
    rw [landings_cons, List.mem_cons] at hk
    cases hk with
    | inl e => exact e ▸ Nat.le_min.mpr ⟨hd d List.mem_cons_self, hn⟩
    | inr hk => exact ih (fun e he => hd e (List.mem_cons_of_mem d he)) (Nat.le_succ_of_le hn) hk

/-- Directives in rising order whose numbers are still to come. -/
structure Upcoming (n : Nat) (ds : List Directive) : Prop where
  rising : ds.Pairwise fun d e => d.line < e.line
  due : ∀ d ∈ ds, n ≤ d.line

theorem Upcoming.tail {n : Nat} {d : Directive} {ds : List Directive} (h : Upcoming n (d :: ds)) :
    Upcoming (n + 1) ds := by
  obtain ⟨hlt, hr⟩ := List.pairwise_cons.mp h.rising
  refine ⟨hr, fun e he => ?_⟩
  have hd := h.due d List.mem_cons_self
  have he' := hlt e he
  omega

theorem Upcoming.skip {n : Nat} {d : Directive} {ds : List Directive} (h : Upcoming n (d :: ds))
    (hne : d.line ≠ n) : Upcoming (n + 1) (d :: ds) := by
  have hd := h.due d List.mem_cons_self
  refine ⟨h.rising, fun e he => ?_⟩
  cases List.mem_cons.mp he with
  | inl he =>
    rw [he]
    omega
  | inr he => exact h.tail.due e he

theorem upcoming_recorded (ls : List Bytes) : Upcoming 1 (recorded ls) :=
  ⟨numbered_pairwise 1 ls, fun _ => le_line_of_mem_numbered⟩

theorem length_placeTrailing (n : Nat) (ds : List Directive) :
    (placeTrailing n ds).length = ds.length := by
  simpa using congrArg List.length (placeTrailing_lines n ds)

theorem length_place (n : Nat) (ds : List Directive) (ls : List Bytes) :
    (place n ds ls).length = ls.length + ds.length := by
  induction n, ds, ls using place.induct with
  | case1 n ds => simp [place, length_placeTrailing]
  | case2 n l ls ih => simpa [place] using ih
  | case3 d ds l ls ih =>
    rw [place, if_pos rfl, List.length_cons, ih]
    simp only [List.length_cons]
    omega
  | case4 n d ds l ls hd ih =>
    rw [place, if_neg hd, List.length_cons, ih]
    simp only [List.length_cons]
    omega

theorem placeTrailing_landing {n i : Nat} {ds : List Directive} {d : Directive}
    (h : Upcoming n ds) (hi : ds[i]? = some d) :
    ((placeTrailing n ds).map Placed.line)[min d.line (n + i) - n]? = some d.content := by
  rw [placeTrailing_lines]
  have hle : n + i ≤ d.line := by
    induction ds generalizing n i with
    | nil => simp at hi
    | cons e ds ih =>
      cases i with
      | zero => exact h.due d (List.mem_of_getElem? hi)
      | succ i =>
        have := ih h.tail (by simpa using hi)
        omega
  rw [Nat.min_eq_right hle, Nat.add_sub_cancel_left, List.getElem?_map, hi]
  rfl

theorem without_placeTrailing {n : Nat} {ds : List Directive} (h : Upcoming n ds) :
    without (landings n ds) n (placeTrailing n ds) = [] := by
  induction ds generalizing n with
  | nil => rfl
  | cons d ds ih =>
    have hd := h.due d List.mem_cons_self
    rw [landings_cons, placeTrailing, Nat.min_eq_right hd,
      without_cons_mem List.mem_cons_self, without_past (Nat.lt_succ_self n), ih h.tail]

theorem place_landing {n i : Nat} {ds : List Directive} {d : Directive} (h : Upcoming n ds)
    (hi : ds[i]? = some d) (ls : List Bytes) :
    ((place n ds ls).map Placed.line)[min d.line (n + ls.length + i) - n]? = some d.content := by
  induction n, ds, ls using place.induct generalizing i with
  | case1 n ds =>
    rw [place]
    exact placeTrailing_landing h hi
  | case2 n l ls ih => simp at hi
  | case3 e ds l ls ih =>
    rw [place, if_pos rfl, List.map_cons]
    cases i with
    | zero =>
      obtain rfl := Option.some.inj hi
      have hpos : min e.line (e.line + (l :: ls).length + 0) - e.line = 0 := by omega
      rw [hpos]
      rfl
    | succ i =>
      have hd := h.tail.due d (List.mem_of_getElem? hi)
      have hr := ih h.tail hi
      have hpos : min d.line (e.line + (l :: ls).length + (i + 1)) - e.line =
          min d.line (e.line + 1 + (l :: ls).length + i) - (e.line + 1) + 1 := by omega
      rw [hpos]
      exact hr
  | case4 n e ds l ls hne ih =>
    have hd := (h.skip hne).due d (List.mem_of_getElem? hi)
    have hr := ih (h.skip hne) hi
    have hpos : min d.line (n + (ls.length + 1) + i) - n =
        min d.line (n + 1 + ls.length + i) - (n + 1) + 1 := by omega
    rw [place, if_neg hne, List.map_cons, List.length_cons, hpos]
    exact hr

theorem without_place {n : Nat} {ds : List Directive} (h : Upcoming n ds) (ls : List Bytes) :
    without (landings (n + ls.length) ds) n (place n ds ls) = ls.map Placed.text := by
  induction n, ds, ls using place.induct with
  | case1 n ds =>
    rw [place]
    exact without_placeTrailing h
  | case2 n l ls ih =>
    have hr : without [] (n + 1) (place (n + 1) [] ls) = ls.map Placed.text :=
      ih ⟨List.Pairwise.nil, by simp⟩
    change without [] n (place n [] (l :: ls)) = (l :: ls).map Placed.text
    rw [place, without_cons_not_mem (by simp), hr, List.map_cons]
  | case3 d ds l ls ih =>
    have hr := ih h.tail
    rw [place, if_pos rfl, landings_cons, Nat.min_eq_left (Nat.le_add_right _ _),
      without_cons_mem List.mem_cons_self, without_past (Nat.lt_succ_self _)]
    have hlen : d.line + (l :: ls).length + 1 = d.line + 1 + (l :: ls).length := by omega
    rwa [hlen]
  | case4 n d ds l ls hne ih =>
    have hr := ih (h.skip hne)
    have hlen : n + 1 + ls.length = n + (l :: ls).length := by
      rw [List.length_cons]
      omega
    rw [hlen] at hr
    -- every directive still to come lands behind this line
    have hlow : n ∉ landings (n + (l :: ls).length) (d :: ds) := by
      intro hm
      have := le_of_mem_landings (h.skip hne).due
        (by rw [List.length_cons]; omega) hm
      omega
    rw [place, if_neg hne, without_cons_not_mem hlow, hr, List.map_cons]

end Directive

namespace Config
open Lines LineBreaks

/-- A line, once woven in, as it reads in the finished text. -/
def finalLine (c : Config) (l : Bytes) : Bytes :=
  match c.lineBreakMode with
  | none => c.lineEnding.reread l
  | some _ => c.lineEnding.reread (cleared (c.lineEnding.reread l))

theorem finalLine_text {c : Config} {l : Bytes} (hl : Bare l) (hg : isGap l = false) :
    c.finalLine l = l := by
  have hr := c.lineEnding.reread_of_not_mem hl.no_return
  have hc : cleared l = l := (cleared_text hg).1
  unfold finalLine
  split
  · exact hr
  · rw [hr, hc, hr]

theorem finalLine_bare {c : Config} {l : Bytes} (hl : Bare l)
    (hb : c.lineBreakMode = none ∨ isBlank l = false) :
    c.finalLine l = if c.lineBreakMode.isSome && isPlaceholder l then [] else l := by
  have hr := c.lineEnding.reread_of_not_mem hl.no_return
  unfold finalLine
  cases hm : c.lineBreakMode with
  | none => simpa using hr
  | some mode =>
    have hb : isBlank l = false := hb.resolve_left (by simp [hm])
    have hc : cleared l = if isPlaceholder l then [] else l := by
      simp [cleared, isGap_of_not_blank hb]
    simp only [hr, hc, Option.isSome_some, Bool.true_and]
    split
    · exact c.lineEnding.reread_of_not_mem bare_nil.no_return
    · exact hr

theorem lineFeed_not_mem_cleared {l : Bytes} (h : lineFeed ∉ l) : lineFeed ∉ cleared l := by
  unfold cleared
  split
  · simp
  · exact h

theorem not_blank_split_write {e : LineEnding} {y : Bytes}
    (h : ∀ l ∈ split y, isBlank l = false) : ∀ l ∈ split (e.write y), isBlank l = false := by
  intro l hl
  have hm : isBlank l ∈ (split (e.write y)).map isBlank := List.mem_map_of_mem hl
  rw [e.map_isBlank_split_write, List.mem_map] at hm
  obtain ⟨k, hk, he⟩ := hm
  rw [← he]
  exact h k hk

theorem split_restored {c : Config} (hs : c.stripDirectives = true) {y : Bytes}
    (hm : c.lineBreakMode = none ∨
      c.lineBreakMode = some .all ∧ ∀ l ∈ split y, isBlank l = false) (input : Bytes) :
    split (c.restored (Directive.recorded (split (stripReturns input))) y) =
      (c.woven (Directive.recorded (split (stripReturns input)))
        (split (c.lineEnding.write y))).map c.finalLine := by
  generalize hW : c.woven (Directive.recorded (split (stripReturns input)))
    (split (c.lineEnding.write y)) = W
  have hfeed : ∀ l ∈ W, lineFeed ∉ l := by
    rw [← hW]
    exact c.forall_woven (fun d hd => (recorded_content_bare hd).no_feed)
      fun l hl => lineFeed_not_mem_of_mem_split hl
  have hread := c.lineEnding.split_terminate hfeed
  cases hm with
  | inl hm =>
    rw [restored_none hm, placed_of_strip hs, hW, hread]
    exact List.map_congr_left fun l _ => by simp [finalLine, hm]
  | inr hm =>
    obtain ⟨hm, hy⟩ := hm
    have hblank : ∀ l ∈ W, isBlank l = false := by
      rw [← hW]
      exact c.forall_woven (fun d => not_isBlank_of_mem_recorded) (not_blank_split_write hy)
    -- nothing is dropped: a line reads as blank only if it was woven in blank
    have hkeep : (W.map c.lineEnding.reread).filter (!isBlank ·) = W.map c.lineEnding.reread := by
      refine List.filter_eq_self.mpr fun l hl => ?_
      obtain ⟨k, hk, rfl⟩ := List.mem_map.mp hl
      simp [c.lineEnding.isBlank_reread, hblank k hk]
    have hcleared : ∀ l ∈ (W.map c.lineEnding.reread).map cleared, lineFeed ∉ l := by
      intro l hl
      obtain ⟨r, hr, rfl⟩ := List.mem_map.mp hl
      obtain ⟨k, hk, rfl⟩ := List.mem_map.mp hr
      exact lineFeed_not_mem_cleared fun h => hfeed k hk (c.lineEnding.mem_of_mem_reread h)
    rw [restored_some hm, placed_of_strip hs, hW, hread, release_all, hkeep,
      c.lineEnding.split_terminate hcleared, List.map_map, List.map_map]
    exact List.map_congr_left fun l _ => by simp [finalLine, hm]

theorem length_split_prepared {c : Config} (hs : c.stripDirectives = true) (input : Bytes) :
    (split (c.prepared input)).length =
      ((split (stripReturns input)).filter (!Directive.isDirective ·)).length := by
  have hb : ∀ l ∈ c.preparedLines (split (stripReturns input)), Bare l :=
    c.preparedLines_bare fun _ => bare_of_mem_source
  have hsplit := split_terminate_feed_bare hb
  rw [prepared_of_lines (Or.inl hs), hsplit, length_preparedLines, keptLines, if_pos hs]

end Config

open Lines LineBreaks Directive

/-- Directives land on their own numbers as far as the reformatted text reaches, and
behind it otherwise; a reformat that drops no line moves none of them. -/
theorem directives_land (c : Config) (hs : c.stripDirectives = true)
    (hu : c.parseUnicode = false) (reformat : Reformat) (input prepared y : Bytes)
    (hp : ((Formatter.ofConfig c reformat).prepare input).outcome = .done prepared)
    (hy : reformat prepared = .ok y)
    (hm : c.lineBreakMode = none ∨
      c.lineBreakMode = some .all ∧ ∀ l ∈ split y, isBlank l = false) :
    let source := split (stripReturns input)
    let ds := recorded source
    let m := (split y).length
    ∃ out, ((Formatter.ofConfig c reformat).format input).outcome = .done out ∧
      (ds.Pairwise fun d e => d.line < e.line) ∧
      (∀ d, d ∈ ds ↔
        1 ≤ d.line ∧ source[d.line - 1]? = some d.content ∧ isDirective d.content = true) ∧
      (split out).length = m + ds.length ∧
      (∀ (i : Nat) (d : Directive), ds[i]? = some d →
        (split out)[min d.line (m + (i + 1)) - 1]? = some d.content) ∧
      (carriageReturn ∉ y →
        without ((ds.zipIdx 1).map fun (d, i) => min d.line (m + i)) 1 (split out) =
          (split y).map fun l =>
            if c.lineBreakMode.isSome && isPlaceholder l then [] else l) ∧
      ((split prepared).length ≤ m → ∀ (n : Nat) (l : Bytes), source[n]? = some l →
        isDirective l = true → (split out)[n]? = some l) := by
  intro source ds m
  obtain rfl : c.prepared input = prepared :=
    Outcome.done.inj ((Formatter.prepare_outcome c reformat input).symm.trans hp)
  have hlines : split (c.restored ds y) =
      ((place 1 ds (split (c.lineEnding.write y))).map Placed.line).map c.finalLine := by
    have h := Config.split_restored hs hm input
    rwa [Config.woven, if_pos hs] at h
  have hlen : (split (c.lineEnding.write y)).length = m := c.lineEnding.length_split_write y
  have hland : ∀ (i : Nat) (d : Directive), ds[i]? = some d →
      (split (c.restored ds y))[min d.line (m + (i + 1)) - 1]? = some d.content := by
    intro i d hi
    have hd := List.mem_of_getElem? hi
    have hfinal : c.finalLine d.content = d.content := Config.finalLine_text
      (Config.recorded_content_bare hd) (isGap_of_isDirective (isDirective_of_mem_numbered hd))
    have h := place_landing (upcoming_recorded source) hi (split (c.lineEnding.write y))
    have hpos : 1 + m + i = m + (i + 1) := by omega
    rw [hlen, hpos] at h
    rw [hlines, List.getElem?_map, h, Option.map_some, hfinal]
  refine ⟨c.restored ds y, ?_, (upcoming_recorded source).rising, fun d => mem_numbered_iff, ?_,
    hland, ?_, ?_⟩
  · rw [Formatter.format_outcome, hy]
    simp [Config.finished, hu, ds, source]
  · rw [hlines, List.length_map, List.length_map, length_place, hlen]
  · intro hr
    have hw := without_place (upcoming_recorded source) (split (c.lineEnding.write y))
    rw [hlen, Nat.add_comm] at hw
    rw [landings_eq, hlines, without_map, without_map, hw, c.lineEnding.split_write hr,
      List.map_map, List.map_map]
    refine List.map_congr_left fun l hl => ?_
    exact Config.finalLine_bare (bare_of_mem_split hr hl) (hm.imp_right fun h => h.2 l hl)
  · intro hle n l hn hl
    have hmem : (⟨n + 1, l⟩ : Directive) ∈ ds :=
      mem_numbered_iff.mpr ⟨Nat.le_add_left 1 n, hn, hl⟩
    obtain ⟨i, hi⟩ := List.mem_iff_getElem?.mp hmem
    have hbound : n + 1 ≤ 1 + i + (source.filter (!isDirective ·)).length := numbered_line_le hi
    have hstay : (source.filter (!isDirective ·)).length ≤ m :=
      Config.length_split_prepared hs input ▸ hle
    have h := hland i _ hi
    have hle : n + 1 ≤ m + (i + 1) := by omega
    rwa [Nat.min_eq_left hle] at h

theorem directives_land_short :
    let c : Config := { lineEnding := .crlf, retainLineBreaks := true, stripDirectives := true }
    let input := Utf8.ofString "%A\na\n \n%B\nb\r\n%C\n"
    let prepared := Utf8.ofString "a\n #magic___^_^___line\nb\n"
    let y := Utf8.ofString "#magic___^_^___line\nb"
    let reformat : Reformat := fun _ => .ok y
    c.stripDirectives = true ∧ c.parseUnicode = false ∧
    ((Formatter.ofConfig c reformat).prepare input).outcome = .done prepared ∧
    reformat prepared = .ok y ∧
    (c.lineBreakMode = some .all ∧ ∀ l ∈ split y, isBlank l = false) ∧
    ∃ out, ((Formatter.ofConfig c reformat).format input).outcome = .done out ∧
      (split out)[0]? = some (Utf8.ofString "%A") ∧
      (split out)[3]? = some (Utf8.ofString "%B") ∧
      (split out)[4]? = some (Utf8.ofString "%C") ∧
      without [1, 4, 5] 1 (split out) = [[], Utf8.ofString "b"] := by
  intro c input prepared y reformat
  have hp : ((Formatter.ofConfig c reformat).prepare input).outcome = .done prepared := by
    decide +kernel
  have hm : c.lineBreakMode = some .all ∧ ∀ l ∈ split y, isBlank l = false := by decide +kernel
  obtain ⟨out, hrun, -, -, -, hland, hrest, -⟩ :=
    directives_land c rfl rfl reformat input prepared y hp rfl (Or.inr hm)
  have hds : recorded (split (stripReturns input)) =
      [⟨1, Utf8.ofString "%A"⟩, ⟨4, Utf8.ofString "%B"⟩, ⟨6, Utf8.ofString "%C"⟩] := by
    decide +kernel
  have hlen : (split y).length = 2 := by decide +kernel
  have hlines : ((split y).map fun l =>
      if c.lineBreakMode.isSome && isPlaceholder l then [] else l) = [[], Utf8.ofString "b"] := by
    decide +kernel
  simp only [hds, hlen, hlines] at hland hrest
  exact ⟨rfl, rfl, hp, rfl, hm, out, hrun, hland 0 _ rfl, hland 1 _ rfl, hland 2 _ rfl,
    hrest (by decide +kernel)⟩

end YamlLayout
