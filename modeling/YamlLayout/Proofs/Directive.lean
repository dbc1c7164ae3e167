import YamlLayout.Directive
import YamlLayout.Proofs.LineBreaks

/-! Directive lines taken out of a document and placed among lines again: numbers rise,
no directive passes for a blank line, and placing among the very lines that stayed
gives the document back. -/
namespace YamlLayout.Directive
open Lines LineBreaks

theorem head_of_isDirective {l : Bytes} (h : isDirective l = true) : ∃ r, l = marker :: r := by
  cases l with
  | nil => simp [isDirective] at h
  | cons b r =>
    simp only [isDirective, List.head?_cons, beq_iff_eq, Option.some.injEq] at h
    exact ⟨r, by rw [h]⟩

theorem isBlank_of_isDirective {l : Bytes} (h : isDirective l = true) : isBlank l = false := by
  obtain ⟨r, rfl⟩ := head_of_isDirective h
  by_contra hb
  have hw := isWhiteSpace_of_mem_isBlank (by simpa using hb)
    (List.mem_cons_self : marker ∈ marker :: r) (by decide)
  exact absurd hw (by decide)

theorem isGap_of_isDirective {l : Bytes} (h : isDirective l = true) : isGap l = false := by
  have hb := isBlank_of_isDirective h
  obtain ⟨r, rfl⟩ := head_of_isDirective h
  have ht : trimIndent (marker :: r) = marker :: r := by simp [trimIndent, marker, space]
  obtain ⟨s, hs⟩ : ∃ s, placeholder = (0x23 : UInt8) :: s := ⟨_, rfl⟩
  rw [isGap_of_not_blank hb, isPlaceholder, ht, hs]
  rfl

theorem numbered_directive {l : Bytes} (h : isDirective l = true) (n : Nat) (ls : List Bytes) :
    numbered n (l :: ls) = ⟨n, l⟩ :: numbered (n + 1) ls := by
  simp [numbered, h]

theorem numbered_text {l : Bytes} (h : isDirective l = false) (n : Nat) (ls : List Bytes) :
    numbered n (l :: ls) = numbered (n + 1) ls := by
  simp [numbered, h]

theorem mem_numbered_iff {n : Nat} {ls : List Bytes} {d : Directive} :
    d ∈ numbered n ls ↔
      n ≤ d.line ∧ ls[d.line - n]? = some d.content ∧ isDirective d.content = true := by
  simp only [numbered, List.mem_filterMap, Prod.exists, List.mk_mem_zipIdx_iff_le_and_getElem?_sub]
  constructor
  · rintro ⟨l, k, ⟨hk, hl⟩, he⟩
    by_cases hd : isDirective l = true
    · rw [if_pos hd] at he
      obtain rfl := Option.some.inj he
      exact ⟨hk, hl, hd⟩
    · rw [if_neg hd] at he
      exact absurd he (by simp)
  · rintro ⟨hk, hl, hd⟩
    exact ⟨d.content, d.line, ⟨hk, hl⟩, by rw [if_pos hd]⟩

theorem le_line_of_mem_numbered {n : Nat} {ls : List Bytes} {d : Directive}
    (h : d ∈ numbered n ls) : n ≤ d.line := (mem_numbered_iff.mp h).1

theorem isDirective_of_mem_numbered {n : Nat} {ls : List Bytes} {d : Directive}
    (h : d ∈ numbered n ls) : isDirective d.content = true := (mem_numbered_iff.mp h).2.2

theorem content_mem_of_mem_numbered {n : Nat} {ls : List Bytes} {d : Directive}
    (h : d ∈ numbered n ls) : d.content ∈ ls :=
  List.mem_of_getElem? (mem_numbered_iff.mp h).2.1

theorem numbered_pairwise (n : Nat) (ls : List Bytes) :
    (numbered n ls).Pairwise fun d e => d.line < e.line := by
  induction ls generalizing n with
  | nil => exact List.Pairwise.nil
  | cons l ls ih =>
    cases hd : isDirective l with
    | true =>
      rw [numbered_directive hd]
      exact List.Pairwise.cons (fun e he => le_line_of_mem_numbered he) (ih (n + 1))
    | false =>
      rw [numbered_text hd]
      exact ih (n + 1)

/-- Before a directive stand only the directives before it and lines that stay. -/
theorem numbered_line_le {n i : Nat} {ls : List Bytes} {d : Directive}
    (h : (numbered n ls)[i]? = some d) : d.line ≤ n + i + (ls.filter (!isDirective ·)).length := by
  induction ls generalizing n i with
  | nil => simp [numbered] at h
  | cons l ls ih =>
    cases hd : isDirective l with
    | true =>
      rw [numbered_directive hd] at h
      cases i with
      | zero =>
        obtain rfl := Option.some.inj h
        exact Nat.le_add_right_of_le (Nat.le_refl n)
      | succ i =>
        have hi := ih h
        rw [List.filter_cons_of_neg (by simp [hd])]
        omega
    | false =>
      rw [numbered_text hd] at h
      have hi := ih h
      rw [List.filter_cons_of_pos (by simp [hd]), List.length_cons]
      omega

theorem placeTrailing_lines (n : Nat) (ds : List Directive) :
    (placeTrailing n ds).map Placed.line = ds.map Directive.content := by
  induction ds generalizing n with
  | nil => rfl
  | cons d ds ih => simp [placeTrailing, Placed.line, ih]

/-- A directive whose number has come stands next, also where no line follows. -/
theorem place_due {n : Nat} {d : Directive} (h : d.line = n) (ds : List Directive)
    (ls : List Bytes) :
    (place n (d :: ds) ls).map Placed.line =
      d.content :: (place (n + 1) ds ls).map Placed.line := by
  cases ls with
  | nil => simp [place, placeTrailing, Placed.line]
  | cons l ls => simp [place, h, Placed.line]

theorem place_text {n : Nat} {ds : List Directive} (h : ∀ d ∈ ds, d.line ≠ n) (l : Bytes)
    (ls : List Bytes) : place n ds (l :: ls) = .text l :: place (n + 1) ds ls := by
  cases ds with
  | nil => rw [place]
  | cons d ds => rw [place, if_neg (h d List.mem_cons_self)]

theorem place_numbered (n : Nat) (ls : List Bytes) :
    (place n (numbered n ls) (ls.filter (!isDirective ·))).map Placed.line = ls := by
  induction ls generalizing n with
  | nil => simp [numbered, place, placeTrailing]
  | cons l ls ih =>
    cases hd : isDirective l with
    | true =>
      have hf : (l :: ls).filter (!isDirective ·) = ls.filter (!isDirective ·) :=
        List.filter_cons_of_neg (by simp [hd])
      have hp := place_due (n := n) (d := ⟨n, l⟩) rfl (numbered (n + 1) ls)
        (ls.filter (!isDirective ·))
      rw [numbered_directive hd, hf, hp, ih]
    | false =>
      have hne : ∀ d ∈ numbered (n + 1) ls, d.line ≠ n := by
        intro d hm
        have := le_line_of_mem_numbered hm
        omega
      rw [numbered_text hd, List.filter_cons_of_pos (by simp [hd]), place_text hne,
        List.map_cons, ih]
      rfl

theorem placeTrailing_mem {n : Nat} {ds : List Directive} {p : Placed}
    (h : p ∈ placeTrailing n ds) : ∃ d ∈ ds, p.line = d.content := by
  have hm : p.line ∈ (placeTrailing n ds).map Placed.line := List.mem_map_of_mem h
  rw [placeTrailing_lines] at hm
  obtain ⟨d, hd, e⟩ := List.mem_map.mp hm
  exact ⟨d, hd, e.symm⟩

theorem place_mem {n : Nat} {ds : List Directive} {ls : List Bytes} {p : Placed}
    (h : p ∈ place n ds ls) : (∃ d ∈ ds, p.line = d.content) ∨ p.line ∈ ls := by
  induction n, ds, ls using place.induct with
  | case1 n ds =>
    rw [place] at h
    exact Or.inl (placeTrailing_mem h)
  | case2 n l ls ih =>
    rw [place, List.mem_cons] at h
    cases h with
    | inl e => exact Or.inr (e ▸ List.mem_cons_self)
    | inr h => exact (ih h).imp_right (List.mem_cons_of_mem l)
  | case3 d ds l ls ih =>
    rw [place, if_pos rfl, List.mem_cons] at h
    cases h with
    | inl e => exact Or.inl ⟨d, List.mem_cons_self, e ▸ rfl⟩
    | inr h => exact (ih h).imp_left fun ⟨e, he, hl⟩ => ⟨e, List.mem_cons_of_mem d he, hl⟩
  | case4 n d ds l ls hd ih =>
    rw [place, if_neg hd, List.mem_cons] at h
    cases h with
    | inl e => exact Or.inr (e ▸ List.mem_cons_self)
    | inr h => exact (ih h).imp_right (List.mem_cons_of_mem l)

theorem forall_place {P : Bytes → Prop} {ds : List Directive} {ls : List Bytes}
    (hd : ∀ d ∈ ds, P d.content) (hl : ∀ l ∈ ls, P l) (n : Nat) :
    ∀ l ∈ (place n ds ls).map Placed.line, P l := by
  intro l h
  obtain ⟨p, hp, rfl⟩ := List.mem_map.mp h
  cases place_mem hp with
  | inl hm =>
    obtain ⟨d, hm, e⟩ := hm
    exact e ▸ hd d hm
  | inr hm => exact hl _ hm

theorem place_forall₂ {R : Bytes → Bytes → Prop} {ds : List Directive}
    (hd : ∀ d ∈ ds, R d.content d.content) (n : Nat) {ls ms : List Bytes}
    (h : List.Forall₂ R ls ms) :
    List.Forall₂ R ((place n ds ls).map Placed.line) ((place n ds ms).map Placed.line) := by
  induction n, ds, ls using place.induct generalizing ms with
  | case1 n ds =>
    cases h
    rw [place, placeTrailing_lines, List.forall₂_same]
    simpa using hd
  | case2 n l ls ih =>
    cases h with
    | cons hlm hr =>
      rw [place, place]
      exact List.Forall₂.cons hlm (ih hd hr)
  | case3 d ds l ls ih =>
    cases h with
    | cons hlm hr =>
      have hrest := ih (fun e he => hd e (List.mem_cons_of_mem d he)) (List.Forall₂.cons hlm hr)
      rw [place, place, if_pos rfl, if_pos rfl]
      exact List.Forall₂.cons (hd d List.mem_cons_self) hrest
  | case4 n d ds l ls hne ih =>
    cases h with
    | cons hlm hr =>
      rw [place, place, if_neg hne, if_neg hne]
      exact List.Forall₂.cons hlm (ih hd hr)

end YamlLayout.Directive
