import YamlLayout.Proofs.Conservation
import YamlLayout.Proofs.Landing

/-! Taking directives out and putting them back undo each other. A text gets all its lines
back; directives put into a text are found again, each under the number of the line on which it
landed, and these are the old numbers where none is too large for the text. -/
namespace YamlLayout

theorem Interleaved.eq_right {α : Type} {ys zs : List α} (h : Interleaved [] ys zs) : zs = ys := by
  generalize he : ([] : List α) = xs at h
  induction h with
  | nil => rfl
  | left _ _ => exact absurd he (by simp)
  | right _ ih => rw [ih he]

namespace Directive
open Lines

section found
variable {n : Nat} {ds : List Directive} (h : Upcoming n ds)
  (hd : ∀ d ∈ ds, isDirective d.content = true)
include h hd

theorem numbered_contents_landed : numbered n (ds.map content) = landed n ds := by
  induction ds generalizing n with
  | nil => rfl
  | cons d ds ih =>
    obtain ⟨hdir, hds⟩ := List.forall_mem_cons.mp hd
    rw [List.map_cons, numbered_directive hdir, ih h.tail hds, landed_cons,
      Nat.min_eq_right (h.due d List.mem_cons_self)]

theorem numbered_place {ls : List Bytes} (hl : ∀ l ∈ ls, isDirective l = false) :
    numbered n ((place n ds ls).map Placed.line) = landed (n + ls.length) ds := by
  induction n, ds, ls using place.induct with
  | case1 n ds =>
    rw [place, placeTrailing_lines]
    exact numbered_contents_landed h hd
  | case2 n l ls ih =>
    obtain ⟨hl, hls⟩ := List.forall_mem_cons.mp hl
    rw [place, List.map_cons, Placed.line, numbered_text hl]
    exact ih ⟨List.Pairwise.nil, by simp⟩ (by simp) hls
  | case3 d ds l ls ih =>
    obtain ⟨hdir, hds⟩ := List.forall_mem_cons.mp hd
    have hnext : d.line + 1 + (l :: ls).length = d.line + (l :: ls).length + 1 := by omega
    rw [place, if_pos rfl, List.map_cons, Placed.line, numbered_directive hdir,
      ih h.tail hds hl, landed_cons, Nat.min_eq_left (Nat.le_add_right _ _), hnext]
  | case4 n d ds l ls hne ih =>
    obtain ⟨hl, hls⟩ := List.forall_mem_cons.mp hl
    have hnext : n + 1 + ls.length = n + (l :: ls).length := by
      rw [List.length_cons]
      omega
    rw [place, if_neg hne, List.map_cons, Placed.line, numbered_text hl,
      ih (h.skip hne) hd hls, hnext]

end found

theorem filter_place {ds : List Directive} {ls : List Bytes}
    (hd : ∀ d ∈ ds, isDirective d.content = true) (hl : ∀ l ∈ ls, isDirective l = false)
    (n : Nat) : ((place n ds ls).map Placed.line).filter (!isDirective ·) = ls := by
  have h := (place_interleaved n ds ls).filter (!isDirective ·)
  have hnone : (ds.map content).filter (!isDirective ·) = [] := by
    refine List.filter_eq_nil_iff.mpr fun l hm => ?_
    obtain ⟨d, hmem, rfl⟩ := List.mem_map.mp hm
    simp [hd d hmem]
  have hall : ls.filter (!isDirective ·) = ls :=
    List.filter_eq_self.mpr fun l hm => by simp [hl l hm]
  rw [hnone, hall] at h
  exact h.eq_right

theorem split_strip {text : Bytes} (hr : carriageReturn ∉ text) :
    split (strip text).1 = (split text).filter (!isDirective ·) :=
  split_terminate_feed_bare fun _ hl => bare_of_mem_split hr (List.mem_of_mem_filter hl)

theorem split_restore (e : LineEnding) {text : Bytes} {ds : List Directive}
    (hr : carriageReturn ∉ text) (hb : ∀ d ∈ ds, Bare d.content) :
    split (restore text ds e.separator) = (place 1 ds (split text)).map Placed.line :=
  e.split_terminate_bare (forall_place hb (fun _ => bare_of_mem_split hr) 1)

/-- Text first: what is taken out of it goes back to where it was. Directives first: what is put
into a text without any is taken out again, each under its landing number. -/
theorem strip_restore_inverse (e : LineEnding) :
    (∀ text, carriageReturn ∉ text →
      let rest := (strip text).1
      let ds := (strip text).2
      (ds.Pairwise fun d d' => d.line < d'.line) ∧
      (∀ d ∈ ds, 1 ≤ d.line ∧ d.line ≤ (split text).length) ∧
      (∀ l ∈ split rest, isDirective l = false) ∧
      restore rest ds e.separator = terminate e.separator (split text)) ∧
    (∀ text ds, carriageReturn ∉ text → (∀ l ∈ split text, isDirective l = false) →
      (ds.Pairwise fun d d' => d.line < d'.line) → (∀ d ∈ ds, 1 ≤ d.line) →
      (∀ d ∈ ds, isDirective d.content = true ∧ Bare d.content) →
      let m := (split text).length
      let again := strip (restore text ds e.separator)
      again.1 = terminate [lineFeed] (split text) ∧
      again.2 = (ds.zipIdx 1).map (fun (d, i) => ⟨min d.line (m + i), d.content⟩) ∧
      ((∀ i d, ds[i]? = some d → d.line ≤ m + (i + 1)) → again.2 = ds)) := by
  constructor
  · intro text hr rest ds
    have hrest : split rest = (split text).filter (!isDirective ·) := split_strip hr
    refine ⟨(upcoming_recorded _).rising, fun d hd => ?_, fun l hl => ?_, ?_⟩
    · obtain ⟨hone, hline, -⟩ := mem_numbered_iff.mp hd
      have := (List.getElem?_eq_some_iff.mp hline).1
      omega
    · rw [hrest] at hl
      simpa using (List.mem_filter.mp hl).2
    · have hback : (placed rest ds).map Placed.line = split text := by
        rw [placed, hrest]
        exact place_numbered 1 (split text)
      rw [restore, hback]
  · intro text ds hr hl hrise hone hcontent m again
    have hdir : ∀ d ∈ ds, isDirective d.content = true := fun d hd => (hcontent d hd).1
    have hlines : split (restore text ds e.separator) =
        (place 1 ds (split text)).map Placed.line :=
      split_restore e hr fun d hd => (hcontent d hd).2
    have hnumbers : again.2 = landed (m + 1) ds := by
      have hfound := numbered_place ⟨hrise, hone⟩ hdir hl
      rw [← hlines, Nat.add_comm] at hfound
      exact hfound
    refine ⟨?_, ?_, fun hle => ?_⟩
    · have hkept : (split (restore text ds e.separator)).filter (!isDirective ·) = split text := by
        rw [hlines]
        exact filter_place hdir hl 1
      exact congrArg (terminate [lineFeed]) hkept
    · rw [hnumbers]
      exact (landed_eq m 1 ds).symm
    · rw [hnumbers]
      exact landed_of_le fun i d hi => by
        have := hle i d hi
        omega

theorem strip_restore_inverse_late :
    let text := Utf8.ofString "a\nb"
    let ds : List Directive := [⟨1, Utf8.ofString "%A"⟩, ⟨3, Utf8.ofString "%B"⟩,
      ⟨9, Utf8.ofString "%C"⟩]
    let out := restore text ds LineEnding.crlf.separator
    carriageReturn ∉ text ∧ (∀ l ∈ split text, isDirective l = false) ∧
    (ds.Pairwise fun d d' => d.line < d'.line) ∧ (∀ d ∈ ds, 1 ≤ d.line) ∧
    (∀ d ∈ ds, isDirective d.content = true ∧ Bare d.content) ∧
    (strip out).1 = Utf8.ofString "a\nb\n" ∧
    (strip out).2.map line = [1, 3, 5] ∧
    let source := Utf8.ofString "%A\na\n%B"
    carriageReturn ∉ source ∧
    restore (strip source).1 (strip source).2 LineEnding.crlf.separator =
      Utf8.ofString "%A\r\na\r\n%B\r\n" := by
  intro text ds out
  have hr : carriageReturn ∉ text := by decide +kernel
  have hl : ∀ l ∈ split text, isDirective l = false := by decide +kernel
  have hrise : ds.Pairwise fun d d' => d.line < d'.line := by decide +kernel
  have hone : ∀ d ∈ ds, 1 ≤ d.line := by decide +kernel
  have hcontent : ∀ d ∈ ds, isDirective d.content = true ∧ Bare d.content := by
    have hbytes : ∀ d ∈ ds, isDirective d.content = true ∧
        lineFeed ∉ d.content ∧ carriageReturn ∉ d.content := by decide +kernel
    exact fun d hd => ⟨(hbytes d hd).1, (hbytes d hd).2.1, (hbytes d hd).2.2⟩
  obtain ⟨hforth, hback⟩ := strip_restore_inverse .crlf
  obtain ⟨hkept, hnumbers, -⟩ := hback text ds hr hl hrise hone hcontent
  refine ⟨hr, hl, hrise, hone, hcontent, hkept.trans (by decide +kernel), ?_, ?_⟩
  · rw [hnumbers]
    decide +kernel
  · intro source
    have hs : carriageReturn ∉ source := by decide +kernel
    obtain ⟨-, -, -, hrestored⟩ := hforth source hs
    exact ⟨hs, hrestored.trans (by decide +kernel)⟩

end Directive
end YamlLayout
