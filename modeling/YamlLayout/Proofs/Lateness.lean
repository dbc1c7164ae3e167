import YamlLayout.Proofs.Conservation
import YamlLayout.Proofs.Landing

/-! Directives in any order among the lines of a text, also repeated or numbered from nought.
They are restored as long as their numbers rise and come up while lines remain. The first that
is late holds back all behind it, and these follow the last line in their order. -/
namespace YamlLayout.Directive
open Lines

/-- Directives whose numbers rise from `n` on and come up while lines remain: the first at the
latest on the line `last`, each further one at the latest on the line after that. -/
structure Timely (n last : Nat) (ds : List Directive) : Prop extends Upcoming n ds where
  within : ∀ (j : Nat) (d : Directive), ds[j]? = some d → d.line ≤ last + j

/-- The directives before the first late one. -/
def timely (n last : Nat) : List Directive → List Directive
  | [] => []
  | d :: ds =>
    if n ≤ d.line ∧ d.line ≤ last then d :: timely (d.line + 1) (last + 1) ds else []

theorem timely_nil (n last : Nat) : Timely n last [] :=
  ⟨⟨List.Pairwise.nil, by simp⟩, by simp⟩

theorem timely_cons_iff {n last : Nat} {d : Directive} {ds : List Directive} :
    Timely n last (d :: ds) ↔
      (n ≤ d.line ∧ d.line ≤ last) ∧ Timely (d.line + 1) (last + 1) ds := by
  constructor
  · intro h
    obtain ⟨hlt, hr⟩ := List.pairwise_cons.mp h.rising
    refine ⟨⟨h.due d List.mem_cons_self, h.within 0 d rfl⟩, ⟨hr, hlt⟩, fun j e he => ?_⟩
    have := h.within (j + 1) e he
    omega
  · rintro ⟨⟨hn, hl⟩, h⟩
    refine ⟨⟨List.Pairwise.cons h.due h.rising, fun e he => ?_⟩, fun j e he => ?_⟩
    · cases List.mem_cons.mp he with
      | inl he => exact he ▸ hn
      | inr he => exact Nat.le_trans hn (Nat.le_of_succ_le (h.due e he))
    · cases j with
      | zero => exact Option.some.inj he ▸ hl
      | succ j =>
        have := h.within j e he
        omega

theorem timely_prefix (n last : Nat) (ds : List Directive) : timely n last ds <+: ds := by
  induction ds generalizing n last with
  | nil => exact List.prefix_refl []
  | cons d ds ih =>
    rw [timely]
    split
    · exact (List.prefix_cons_inj d).mpr (ih _ _)
    · exact List.nil_prefix

theorem timely_timely (n last : Nat) (ds : List Directive) : Timely n last (timely n last ds) := by
  induction ds generalizing n last with
  | nil => exact timely_nil n last
  | cons d ds ih =>
    rw [timely]
    split
    · next h => exact timely_cons_iff.mpr ⟨h, ih _ _⟩
    · exact timely_nil n last

theorem prefix_timely {n last : Nat} {ds qs : List Directive} (hq : qs <+: ds)
    (h : Timely n last qs) : qs <+: timely n last ds := by
  induction ds generalizing n last qs with
  | nil => exact hq
  | cons d ds ih =>
    cases List.prefix_cons_iff.mp hq with
    | inl he => exact he ▸ List.nil_prefix
    | inr he =>
      obtain ⟨rs, rfl, hr⟩ := he
      obtain ⟨hd, ht⟩ := timely_cons_iff.mp h
      rw [timely, if_pos hd]
      exact (List.prefix_cons_inj d).mpr (ih hr ht)

theorem timely_skip {n : Nat} {d : Directive} (hne : d.line ≠ n) (last : Nat)
    (ds : List Directive) : timely n last (d :: ds) = timely (n + 1) last (d :: ds) := by
  have hiff : n ≤ d.line ↔ n + 1 ≤ d.line := by omega
  simp only [timely, hiff]

/-- What is held back follows the lines and the timely directives among them. -/
theorem place_timely {n last : Nat} (ds : List Directive) (ls : List Bytes)
    (h : last + 1 = n + ls.length) :
    place n ds ls = place n (timely n last ds) ls ++
      placeTrailing (last + 1 + (timely n last ds).length)
        (ds.drop (timely n last ds).length) := by
  induction n, ds, ls using place.induct generalizing last with
  | case1 n ds =>
    -- with no line left, the next directive is late already
    have hnone : timely n last ds = [] := by
      cases ds with
      | nil => rfl
      | cons d ds =>
        rw [List.length_nil] at h
        rw [timely, if_neg (by omega)]
    rw [hnone, place, place, h]
    rfl
  | case2 n l ls ih => simp [timely, placeTrailing]
  | case3 d ds l ls ih =>
    have hlast : d.line ≤ last := by
      rw [List.length_cons] at h
      omega
    have hrest : last + 1 + 1 = d.line + 1 + (l :: ls).length := by omega
    have hr := ih hrest
    rw [timely, if_pos ⟨Nat.le_refl _, hlast⟩, place, if_pos rfl, hr, place, if_pos rfl,
      List.length_cons, List.drop_succ_cons, List.cons_append]
    have hlen : last + 1 + 1 + (timely (d.line + 1) (last + 1) ds).length =
        last + 1 + ((timely (d.line + 1) (last + 1) ds).length + 1) := by omega
    rw [hlen]
  | case4 n d ds l ls hne ih =>
    have hrest : last + 1 = n + 1 + ls.length := by
      rw [h, List.length_cons]
      omega
    have hr := ih hrest
    have hlater : ∀ e ∈ timely (n + 1) last (d :: ds), e.line ≠ n := by
      intro e he
      have := (timely_timely (n + 1) last (d :: ds)).due e he
      omega
    rw [timely_skip hne, place_text hlater, place, if_neg hne, hr, List.cons_append]

theorem place_events {n last : Nat} {ds : List Directive} {ls : List Bytes}
    (ht : Timely n last ds) (h : last + 1 = n + ls.length) :
    (place n ds ls).filterMap Placed.event? = ds.map fun d => .restoredDirective d.line := by
  induction n, ds, ls using place.induct generalizing last with
  | case1 n ds =>
    cases ds with
    | nil => simp [place, placeTrailing]
    | cons d ds =>
      have hd := (timely_cons_iff.mp ht).1
      rw [List.length_nil] at h
      omega
  | case2 n l ls ih =>
    have hrest : last + 1 = n + 1 + ls.length := by
      rw [h, List.length_cons]
      omega
    rw [place, List.filterMap_cons_none rfl]
    exact ih (timely_nil _ _) hrest
  | case3 d ds l ls ih =>
    have he : (Placed.restored d).event? = some (.restoredDirective d.line) := rfl
    rw [place, if_pos rfl, List.filterMap_cons_some he, List.map_cons,
      ih (timely_cons_iff.mp ht).2 (by omega)]
  | case4 n d ds l ls hne ih =>
    have hskip := ht.toUpcoming.skip hne
    rw [place, if_neg hne, List.filterMap_cons_none rfl]
    exact ih ⟨hskip, ht.within⟩ (by rw [h, List.length_cons]; omega)

theorem placeTrailing_events (n : Nat) (ds : List Directive) :
    (placeTrailing n ds).filterMap Placed.event? =
      (ds.zipIdx n).map fun (d, k) => .appendedDirective d.line k := by
  induction ds generalizing n with
  | nil => rfl
  | cons d ds ih =>
    have he : (Placed.trailing d n).event? = some (.appendedDirective d.line n) := rfl
    rw [placeTrailing, List.filterMap_cons_some he, ih, List.zipIdx_cons, List.map_cons]

theorem landings_timely {n last : Nat} {ds : List Directive} (h : Timely n last ds) :
    landings (last + 1) ds = ds.map line := by
  have hle : ∀ (i : Nat) (d : Directive), ds[i]? = some d → d.line ≤ last + 1 + i := by
    intro i d hi
    have := h.within i d hi
    omega
  rw [landings, landed_of_le hle]

/-- Any list of directives goes back in two parts. The longest timely prefix is restored, each
directive on the line of its number; all others follow the text, whatever their numbers are.
What is told of a directive gives its true line, counted from one. -/
theorem timely_restored (e : LineEnding) (text : Bytes) (ds : List Directive) :
    let ls := split text
    let restored := timely 1 ls.length ds
    let held := ds.drop restored.length
    (ds = restored ++ held ∧ Timely 1 ls.length restored ∧
      ∀ qs, qs <+: ds → Timely 1 ls.length qs → qs <+: restored) ∧
    ∃ emitted, restore text ds e.separator = terminate e.separator emitted ∧
      ((∀ d ∈ ds, lineFeed ∉ d.content) →
        split (restore text ds e.separator) = emitted.map e.reread) ∧
      Interleaved (ds.map content) ls emitted ∧
      (∀ d ∈ restored, emitted[d.line - 1]? = some d.content) ∧
      (∀ j d, restored.length ≤ j → ds[j]? = some d →
        emitted[ls.length + j]? = some d.content) ∧
      without (restored.map line) 1 (emitted.take (ls.length + restored.length)) = ls ∧
      restoreEvents text ds = restored.map (fun d => .restoredDirective d.line) ++
        (held.zipIdx (ls.length + restored.length + 1)).map
          fun (d, k) => .appendedDirective d.line k := by
  intro ls restored held
  have hprefix : restored <+: ds := timely_prefix 1 ls.length ds
  have ht : Timely 1 ls.length restored := timely_timely 1 ls.length ds
  have hsplit : ds = restored ++ held := (List.prefix_iff_eq_append.mp hprefix).symm
  have hplace : placed text ds =
      place 1 restored ls ++ placeTrailing (ls.length + restored.length + 1) held := by
    rw [placed, place_timely ds ls (Nat.add_comm _ _), Nat.add_right_comm]
  have hlen : ((place 1 restored ls).map Placed.line).length = ls.length + restored.length := by
    rw [List.length_map, length_place]
  have hlines : (placed text ds).map Placed.line =
      (place 1 restored ls).map Placed.line ++ held.map content := by
    rw [hplace, List.map_append, placeTrailing_lines]
  refine ⟨⟨hsplit, ht, fun qs => prefix_timely⟩, (placed text ds).map Placed.line, rfl,
    fun hf => ?reread, place_interleaved 1 ds ls, fun d hd => ?own, fun j d hj hd => ?behind,
    ?lines, ?events⟩
  case reread =>
    exact e.split_terminate (forall_place hf (fun l => lineFeed_not_mem_of_mem_split) 1)
  case own =>
    obtain ⟨i, hi⟩ := List.mem_iff_getElem?.mp hd
    have hown := place_landing ht.toUpcoming hi ls
    have hline : min d.line (1 + ls.length + i) = d.line :=
      Nat.min_eq_left (Nat.le_trans (ht.within i d hi) (by omega))
    rw [hline] at hown
    rw [hlines, List.getElem?_append_left (List.getElem?_eq_some_iff.mp hown).1, hown]
  case behind =>
    have hpos : ls.length + j - (ls.length + restored.length) = j - restored.length := by omega
    rw [hlines, List.getElem?_append_right (by omega), hlen, hpos, List.getElem?_map,
      List.getElem?_drop, Nat.add_sub_cancel' hj, hd]
    rfl
  case lines =>
    have hkept := without_place ht.toUpcoming ls
    rw [Nat.add_comm, landings_timely ht] at hkept
    rw [hlines, List.take_left' hlen, without_map, hkept, List.map_map]
    exact List.map_id ls
  case events =>
    rw [restoreEvents, hplace, List.filterMap_append, place_events ht (Nat.add_comm _ _),
      placeTrailing_events]

theorem timely_restored_repeated :
    let text := Utf8.ofString "a\r\nb"
    let ds : List Directive := [⟨2, Utf8.ofString "%A"⟩, ⟨3, Utf8.ofString "%B"⟩,
      ⟨3, Utf8.ofString "%C\r"⟩, ⟨0, Utf8.ofString "%D"⟩]
    let out := restore text ds LineEnding.lf.separator
    (∀ d ∈ ds, lineFeed ∉ d.content) ∧ timely 1 (split text).length ds = ds.take 2 ∧
    (split out)[1]? = some (Utf8.ofString "%A") ∧ (split out)[2]? = some (Utf8.ofString "%B") ∧
    (split out)[4]? = some (Utf8.ofString "%C") ∧ (split out)[5]? = some (Utf8.ofString "%D") ∧
    restoreEvents text ds = [.restoredDirective 2, .restoredDirective 3,
      .appendedDirective 3 5, .appendedDirective 0 6] := by
  intro text ds out
  have hf : ∀ d ∈ ds, lineFeed ∉ d.content := by decide +kernel
  have hlen : (split text).length = 2 := by decide +kernel
  have htimely : timely 1 (split text).length ds = ds.take 2 := by decide +kernel
  obtain ⟨-, emitted, -, hreread, -, hown, hbehind, -, hevents⟩ := timely_restored .lf text ds
  rw [htimely] at hown hbehind hevents
  rw [hlen] at hbehind hevents
  have hout : ∀ {k : Nat} {l : Bytes}, emitted[k]? = some l →
      (split out)[k]? = some (dropFinalReturn l) := by
    intro k l h
    rw [hreread hf, List.getElem?_map, h]
    rfl
  exact ⟨hf, htimely, hout (hown ds[0] (by decide +kernel)),
    hout (hown ds[1] (by decide +kernel)), hout (hbehind 2 _ (by decide) rfl),
    hout (hbehind 3 _ (by decide) rfl), hevents⟩

end YamlLayout.Directive
