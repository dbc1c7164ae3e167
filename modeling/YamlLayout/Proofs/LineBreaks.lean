import Mathlib.Data.List.Forall2
import YamlLayout.LineBreaks
import YamlLayout.Proofs.LineEnding

/-! What becomes of blank lines: a line that went to the reformat as a placeholder, or
happens to look like one, leaves as an empty line, and in the single mode a run of
such lines leaves as one. -/
namespace YamlLayout.LineBreaks
open Lines

/-- A line that leaves as an empty one, once blank lines are kept. -/
def isGap (l : Bytes) : Bool := isBlank l || isPlaceholder l

def cleared (l : Bytes) : Bytes := if isGap l then [] else l

theorem cleared_gap {l : Bytes} (h : isGap l = true) : cleared l = [] := by simp [cleared, h]

theorem isGap_nil : isGap [] = true := by decide

theorem cleared_text {l : Bytes} (h : isGap l = false) : cleared l = l ∧ l ≠ [] := by
  refine ⟨by simp [cleared, h], ?_⟩
  intro e
  rw [e, isGap_nil] at h
  exact absurd h (by simp)

def collapsed : List Bytes → List Bytes
  | [] => []
  | l :: ls => if isGap l then [] :: collapsed (ls.dropWhile isGap) else l :: collapsed ls
termination_by ls => ls.length
decreasing_by
  · have := (List.dropWhile_sublist isGap (l := ls)).length_le
    rw [List.length_cons]
    omega
  · rw [List.length_cons]
    omega

def settled : LineBreakMode → List Bytes → List Bytes
  | .all, ls => ls.map cleared
  | .single, ls => collapsed ls

theorem collapsed_gap {l : Bytes} (h : isGap l = true) (ls : List Bytes) :
    collapsed (l :: ls) = [] :: collapsed (ls.dropWhile isGap) := by
  rw [collapsed, if_pos h]

theorem collapsed_text {l : Bytes} (h : isGap l = false) (ls : List Bytes) :
    collapsed (l :: ls) = l :: collapsed ls := by
  rw [collapsed, if_neg (by simp [h])]

theorem isGap_of_not_blank {l : Bytes} (h : isBlank l = false) : isGap l = isPlaceholder l := by
  simp [isGap, h]

theorem release_all (afterGap : Bool) (ls : List Bytes) :
    release .all afterGap ls = (ls.filter (!isBlank ·)).map cleared := by
  induction ls generalizing afterGap with
  | nil => rfl
  | cons l ls ih =>
    cases hb : isBlank l with
    | true => simp [release, hb, ih]
    | false =>
      cases hp : isPlaceholder l with
      | true => simp [release, hb, hp, ih, cleared, isGap]
      | false => simp [release, hb, hp, ih, cleared, isGap]

theorem release_single (afterGap : Bool) (ls : List Bytes) :
    release .single afterGap ls =
      collapsed (if afterGap then (ls.filter (!isBlank ·)).dropWhile isGap
        else ls.filter (!isBlank ·)) := by
  induction ls generalizing afterGap with
  | nil => cases afterGap <;> simp [release, collapsed]
  | cons l ls ih =>
    cases hb : isBlank l with
    | true => simp [release, hb, ih]
    | false =>
      have hf : (l :: ls).filter (!isBlank ·) = l :: ls.filter (!isBlank ·) := by simp [hb]
      have hg := isGap_of_not_blank hb
      rw [hf]
      cases hp : isPlaceholder l with
      | true =>
        rw [hp] at hg
        cases afterGap with
        | true => simp [release, hb, hp, hg, ih]
        | false => simp [release, hb, hp, ih, collapsed_gap hg]
      | false =>
        rw [hp] at hg
        cases afterGap with
        | true => simp [release, hb, hp, hg, ih, collapsed_text hg]
        | false => simp [release, hb, hp, ih, collapsed_text hg]

theorem release_eq_settled (mode : LineBreakMode) (ls : List Bytes) :
    release mode false ls = settled mode (ls.filter (!isBlank ·)) := by
  cases mode with
  | all => exact release_all false ls
  | single => simpa [settled] using release_single false ls

theorem release_of_not_blank (mode : LineBreakMode) {ls : List Bytes}
    (h : ∀ l ∈ ls, isBlank l = false) : release mode false ls = settled mode ls := by
  rw [release_eq_settled, List.filter_eq_self.mpr fun l hl => by simp [h l hl]]

theorem settled_mem {mode : LineBreakMode} {ls : List Bytes} {m : Bytes}
    (h : m ∈ settled mode ls) : m = [] ∨ m ∈ ls := by
  cases mode with
  | all =>
    obtain ⟨l, hl, rfl⟩ := List.mem_map.mp h
    unfold cleared
    split
    · exact Or.inl rfl
    · exact Or.inr hl
  | single =>
    simp only [settled] at h
    induction ls using collapsed.induct with
    | case1 => simp [collapsed] at h
    | case2 l ls hg ih =>
      rw [collapsed_gap hg, List.mem_cons] at h
      cases h with
      | inl h => exact Or.inl h
      | inr h =>
        have hrest {m : Bytes} (h : m ∈ ls.dropWhile isGap) : m ∈ l :: ls :=
          List.mem_cons_of_mem l ((List.dropWhile_sublist isGap).mem h)
        exact (ih h).imp_right hrest
    | case3 l ls hg ih =>
      rw [collapsed_text (by simpa using hg), List.mem_cons] at h
      cases h with
      | inl h => exact Or.inr (h ▸ List.mem_cons_self)
      | inr h => exact (ih h).imp_right (List.mem_cons_of_mem l)

theorem settled_bare (mode : LineBreakMode) {ls : List Bytes} (h : ∀ l ∈ ls, Bare l) :
    ∀ l ∈ settled mode ls, Bare l := by
  intro l hl
  cases settled_mem hl with
  | inl e => exact e ▸ bare_nil
  | inr hm => exact h l hm

theorem forall_release {P : Bytes → Prop} (hnil : P []) (mode : LineBreakMode) {ls : List Bytes}
    (h : ∀ l ∈ ls, P l) : ∀ l ∈ release mode false ls, P l := by
  intro l hl
  rw [release_eq_settled] at hl
  cases settled_mem hl with
  | inl e => exact e ▸ hnil
  | inr hm => exact h l (List.mem_of_mem_filter hm)

theorem release_bare (mode : LineBreakMode) {ls : List Bytes} (h : ∀ l ∈ ls, Bare l) :
    ∀ l ∈ release mode false ls, Bare l := forall_release bare_nil mode h

/-- Lines that are gaps together and otherwise the same. -/
def SameText (l m : Bytes) : Prop := isGap m = isGap l ∧ (isGap l = false → m = l)

theorem SameText.refl (l : Bytes) : SameText l l := ⟨rfl, fun _ => rfl⟩

theorem map_cleared_congr {ls ms : List Bytes} (h : List.Forall₂ SameText ls ms) :
    ms.map cleared = ls.map cleared := by
  induction h with
  | nil => rfl
  | @cons l m ls ms hlm _ ih =>
    rw [List.map_cons, List.map_cons, ih]
    cases hg : isGap l with
    | true => simp [cleared, hlm.1, hg]
    | false => rw [hlm.2 hg]

theorem dropWhile_isGap_congr {ls ms : List Bytes} (h : List.Forall₂ SameText ls ms) :
    List.Forall₂ SameText (ls.dropWhile isGap) (ms.dropWhile isGap) := by
  induction h with
  | nil => exact List.Forall₂.nil
  | @cons l m ls ms hlm hr ih =>
    cases hg : isGap l with
    | true => simpa [List.dropWhile_cons, hlm.1, hg] using ih
    | false => simpa [List.dropWhile_cons, hlm.1, hg] using And.intro hlm hr

theorem collapsed_congr {ls ms : List Bytes} (h : List.Forall₂ SameText ls ms) :
    collapsed ms = collapsed ls := by
  induction ls using collapsed.induct generalizing ms with
  | case1 =>
    cases h
    rfl
  | case2 l ls hg ih =>
    cases h with
    | @cons _ m _ ms hlm hr =>
      rw [collapsed_gap (hlm.1.trans hg), collapsed_gap hg, ih (dropWhile_isGap_congr hr)]
  | case3 l ls hg ih =>
    cases h with
    | @cons _ m _ ms hlm hr =>
      have hl : isGap l = false := by simpa using hg
      rw [hlm.2 hl, collapsed_text hl, collapsed_text hl, ih hr]

theorem settled_congr (mode : LineBreakMode) {ls ms : List Bytes}
    (h : List.Forall₂ SameText ls ms) : settled mode ms = settled mode ls := by
  cases mode with
  | all => exact map_cleared_congr h
  | single => exact collapsed_congr h

theorem release_forall₂ {R : Bytes → Bytes → Prop} (hnil : R [] [])
    (hb : ∀ l m, R l m → isBlank l = isBlank m)
    (hp : ∀ l m, R l m → isPlaceholder l = isPlaceholder m) (mode : LineBreakMode)
    (afterGap : Bool) {ls ms : List Bytes} (h : List.Forall₂ R ls ms) :
    List.Forall₂ R (release mode afterGap ls) (release mode afterGap ms) := by
  induction h generalizing afterGap with
  | nil => exact List.Forall₂.nil
  | @cons l m ls ms hlm _ ih =>
    rw [release, release, hb l m hlm, hp l m hlm]
    split
    · exact ih afterGap
    · split
      · split
        · exact ih afterGap
        · exact List.Forall₂.cons hnil (ih true)
      · exact List.Forall₂.cons hlm (ih false)

theorem isBlank_nil : isBlank [] = true := by decide

/-- A placeholder holds a number sign, and so is never blank. -/
theorem not_blank_of_isPlaceholder {l : Bytes} (h : isPlaceholder l = true) :
    isBlank l = false := by
  have hp : placeholder <+: trimIndent l := List.isPrefixOf_iff_prefix.mp h
  have hm : (0x23 : UInt8) ∈ trimIndent l := hp.subset (by decide)
  have hl : (0x23 : UInt8) ∈ l := (List.dropWhile_sublist _).subset hm
  by_contra hb
  exact absurd (isWhiteSpace_of_mem_isBlank (by simpa using hb) hl (by decide)) (by decide)

theorem beq_space_of_mem_replicate {n : Nat} {b : UInt8} (h : b ∈ List.replicate n space) :
    (b == space) = true := by
  rw [List.eq_of_mem_replicate h]
  rfl

theorem trimIndent_replicate (n : Nat) (l : Bytes) :
    trimIndent (List.replicate n space ++ l) = trimIndent l := by
  rw [trimIndent, List.dropWhile_append_of_pos fun _ => beq_space_of_mem_replicate, trimIndent]

theorem isPlaceholder_gap (p : Padding) : isPlaceholder (Held.gap p).line = true := by
  rw [isPlaceholder, Held.line, Padding.bytes, trimIndent_replicate]
  decide

theorem isBlank_gap (p : Padding) : isBlank (Held.gap p).line = false :=
  not_blank_of_isPlaceholder (isPlaceholder_gap p)

theorem mem_gap {p : Padding} {b : UInt8} (h : b ∈ (Held.gap p).line) :
    b = space ∨ b ∈ placeholder :=
  (List.mem_append.mp h).imp_left List.eq_of_mem_replicate

theorem not_mem_gap {b : UInt8} (hs : b ≠ space) (hb : b ∉ placeholder) (p : Padding) :
    b ∉ (Held.gap p).line := fun h => (mem_gap h).elim hs hb

theorem bare_gap (p : Padding) : Bare (Held.gap p).line where
  no_feed := not_mem_gap (by decide) (by decide) p
  no_return := not_mem_gap (by decide) (by decide) p

theorem hold_cons (p : Padding) (l : Bytes) (ls : List Bytes) :
    (hold p (l :: ls)).map Held.line =
      (if isBlank l then (Held.gap (p.adjust l)).line else l) ::
        (hold (p.adjust l) ls).map Held.line := by
  cases hb : isBlank l <;> simp [hold, hb, Held.line]

theorem hold_sameText (p : Padding) (ls : List Bytes) :
    List.Forall₂ SameText ls ((hold p ls).map Held.line) := by
  induction ls generalizing p with
  | nil => exact List.Forall₂.nil
  | cons l ls ih =>
    rw [hold_cons]
    refine List.Forall₂.cons ?_ (ih (p.adjust l))
    cases hb : isBlank l with
    | true =>
      have hg : isGap (Held.gap (p.adjust l)).line = true := by simp [isGap, isPlaceholder_gap]
      have hl : isGap l = true := by simp [isGap, hb]
      exact ⟨hg.trans hl.symm, fun h => absurd (h.symm.trans hl) (by simp)⟩
    | false => exact SameText.refl l

/-- What holds of the placeholders and of the lines that are not blank holds of all that is
on its way to the reformat. -/
theorem forall_hold {P : Bytes → Prop} (hgap : ∀ p, P (Held.gap p).line) (p : Padding)
    {ls : List Bytes} (h : ∀ l ∈ ls, isBlank l = false → P l) :
    ∀ l ∈ (hold p ls).map Held.line, P l := by
  induction ls generalizing p with
  | nil => simp [hold]
  | cons l ls ih =>
    obtain ⟨hl, hls⟩ := List.forall_mem_cons.mp h
    rw [hold_cons, List.forall_mem_cons]
    refine ⟨?_, ih (p.adjust l) hls⟩
    cases hb : isBlank l with
    | true => exact hgap _
    | false => exact hl hb

theorem hold_not_blank (p : Padding) (ls : List Bytes) :
    ∀ l ∈ (hold p ls).map Held.line, isBlank l = false :=
  forall_hold isBlank_gap p fun _ _ hb => hb

end YamlLayout.LineBreaks
