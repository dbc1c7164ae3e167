import Mathlib.Data.List.Basic
import YamlLayout.Text.Utf8

/-! Two texts that occur in a third only side by side. In a row of blocks that hold an
occurrence only as a whole, this says which blocks are neighbours. -/
namespace YamlLayout
variable {α : Type}

/-- Right after the first text always comes the second, and right before the second the
first. -/
def Coupled (first second text : Bytes) : Prop :=
  ∀ a b, (text = a ++ first ++ b → second <+: b) ∧ (text = a ++ second ++ b → first <:+ a)

theorem coupled_iff_forall_lt (first second text : Bytes) :
    Coupled first second text ↔ ∀ i, i < text.length + 1 →
      (first <+: text.drop i → second <+: text.drop (i + first.length)) ∧
      (second <+: text.drop i → first <:+ text.take i) := by
  constructor
  · intro h i _
    constructor
    · rintro ⟨b, hb⟩
      have hsplit : text = text.take i ++ first ++ b := by
        rw [List.append_assoc, hb, List.take_append_drop]
      rw [← List.drop_drop, ← hb, List.drop_left]
      exact (h _ b).1 hsplit
    · rintro ⟨b, hb⟩
      have hsplit : text = text.take i ++ second ++ b := by
        rw [List.append_assoc, hb, List.take_append_drop]
      exact (h _ b).2 hsplit
  · intro h a b
    constructor
    · rintro rfl
      have hlen : a.length < (a ++ first ++ b).length + 1 := by
        simp only [List.length_append]
        omega
      have hi := (h a.length hlen).1
      rw [← List.length_append, List.drop_left, List.append_assoc, List.drop_left] at hi
      exact hi (List.prefix_append ..)
    · rintro rfl
      have hlen : a.length < (a ++ second ++ b).length + 1 := by
        simp only [List.length_append]
        omega
      have hi := (h a.length hlen).2
      rw [List.append_assoc, List.drop_left, List.take_left] at hi
      exact hi (List.prefix_append ..)

instance (first second text : Bytes) : Decidable (Coupled first second text) :=
  decidable_of_iff' _ (coupled_iff_forall_lt first second text)

def Paired (p q : α → Prop) (xs : List α) : Prop :=
  ∀ l x r, xs = l ++ x :: r →
    (p x → ∃ y s, r = y :: s ∧ q y) ∧ (q x → ∃ k y, l = k ++ [y] ∧ p y)

theorem paired_of_neither {p q : α → Prop} {xs : List α} (h : ∀ x ∈ xs, ¬ p x ∧ ¬ q x) :
    Paired p q xs := by
  intro l x r he
  have hx := h x (by simp [he])
  exact ⟨fun hp => absurd hp hx.1, fun hq => absurd hq hx.2⟩

theorem paired_pair {p q : α → Prop} {x y : α} (hx : p x ∧ ¬ q x) (hy : ¬ p y ∧ q y) :
    Paired p q [x, y] := by
  intro l z r h
  cases l with
  | nil =>
    obtain ⟨rfl, rfl⟩ := List.cons.inj h
    exact ⟨fun _ => ⟨y, [], rfl, hy.2⟩, fun hq => absurd hq hx.2⟩
  | cons w l =>
    obtain ⟨rfl, hyz⟩ := List.cons.inj h
    change [y] = l ++ z :: r at hyz
    obtain ⟨rfl, rfl, rfl⟩ : l = [] ∧ z = y ∧ r = [] := by
      simpa [List.append_eq_singleton_iff] using hyz.symm
    exact ⟨fun hp => absurd hp hy.1, fun _ => ⟨[], x, rfl, hx.1⟩⟩

theorem Paired.append {p q : α → Prop} {xs ys : List α} (hx : Paired p q xs)
    (hy : Paired p q ys) : Paired p q (xs ++ ys) := by
  intro l z r h
  obtain ⟨k, rfl, rfl⟩ | ⟨k, rfl, hk⟩ := List.append_eq_append_iff.mp h
  · obtain ⟨hp, hq⟩ := hy k z r rfl
    refine ⟨hp, fun h => ?_⟩
    obtain ⟨m, y, rfl, hm⟩ := hq h
    exact ⟨xs ++ m, y, (List.append_assoc ..).symm, hm⟩
  · cases k with
    | nil =>
      obtain ⟨hp, hq⟩ := hy [] z r hk.symm
      refine ⟨hp, fun h => ?_⟩
      obtain ⟨m, y, hm, -⟩ := hq h
      simp at hm
    | cons w k =>
      obtain ⟨rfl, rfl⟩ := List.cons.inj hk
      obtain ⟨hp, hq⟩ := hx l z k rfl
      refine ⟨fun h => ?_, hq⟩
      obtain ⟨y, s, rfl, hs⟩ := hp h
      exact ⟨y, s ++ ys, rfl, hs⟩

theorem paired_flatMap {β : Type} {p q : β → Prop} {f : α → List β} {xs : List α}
    (h : ∀ x ∈ xs, Paired p q (f x)) : Paired p q (xs.flatMap f) := by
  induction xs with
  | nil => exact paired_of_neither (by simp)
  | cons x xs ih =>
    exact (h x List.mem_cons_self).append (ih fun y hy => h y (List.mem_cons_of_mem x hy))

section Kinds
variable {p q p' q' : α → Prop} {xs : List α}

theorem Paired.or (h : Paired p q xs) (h' : Paired p' q' xs) :
    Paired (fun x => p x ∨ p' x) (fun x => q x ∨ q' x) xs := by
  intro l x r he
  obtain ⟨hfirst, hsecond⟩ := h l x r he
  obtain ⟨hfirst', hsecond'⟩ := h' l x r he
  constructor
  · intro hx
    cases hx with
    | inl hx =>
      obtain ⟨y, s, hs, hy⟩ := hfirst hx
      exact ⟨y, s, hs, Or.inl hy⟩
    | inr hx =>
      obtain ⟨y, s, hs, hy⟩ := hfirst' hx
      exact ⟨y, s, hs, Or.inr hy⟩
  · intro hx
    cases hx with
    | inl hx =>
      obtain ⟨k, y, hk, hy⟩ := hsecond hx
      exact ⟨k, y, hk, Or.inl hy⟩
    | inr hx =>
      obtain ⟨k, y, hk, hy⟩ := hsecond' hx
      exact ⟨k, y, hk, Or.inr hy⟩

theorem Paired.of_or (h : Paired p q xs)
    (hall : Paired (fun x => p x ∨ p' x) (fun x => q x ∨ q' x) xs)
    (hp : ∀ x, p x → ¬ p' x) (hq : ∀ x, q x → ¬ q' x) : Paired p' q' xs := by
  intro l x r he
  obtain ⟨hfirst, hsecond⟩ := hall l x r he
  constructor
  · intro hx
    obtain ⟨y, s, hs, hy⟩ := hfirst (Or.inr hx)
    cases hy with
    | inl hy =>
      -- the element before `y` would be of the kind `p`, but it is `x`
      obtain ⟨k, z, hk, hz⟩ := (h (l ++ [x]) y s (by simp [he, hs])).2 hy
      obtain ⟨-, rfl⟩ := List.append_singleton_inj.mp hk
      exact absurd hx (hp x hz)
    | inr hy => exact ⟨y, s, hs, hy⟩
  · intro hx
    obtain ⟨k, y, hk, hy⟩ := hsecond (Or.inr hx)
    cases hy with
    | inl hy =>
      obtain ⟨z, s, hs, hz⟩ := (h k y (x :: r) (by simp [he, hk])).1 hy
      obtain ⟨rfl, -⟩ := List.cons.inj hs
      exact absurd hx (hq x hz)
    | inr hy => exact ⟨k, y, hk, hy⟩

theorem Paired.or_iff (h : Paired p q xs) (hp : ∀ x, p x → ¬ p' x) (hq : ∀ x, q x → ¬ q' x) :
    Paired (fun x => p x ∨ p' x) (fun x => q x ∨ q' x) xs ↔ Paired p' q' xs :=
  ⟨fun hall => h.of_or hall hp hq, fun h' => h.or h'⟩

end Kinds

/-- A text occurs in rows of these blocks only where a block is it. -/
def Whole (f : α → Bytes) (w : Bytes) : Prop :=
  ∀ xs a b, xs.flatMap f = a ++ w ++ b →
    ∃ l x r, xs = l ++ x :: r ∧ l.flatMap f = a ∧ f x = w ∧ r.flatMap f = b

theorem whole_of_first {f : α → Bytes} {c : UInt8} {w : Bytes} (ht : ∀ x, c ∉ (f x).tail)
    (hl : ∀ x s, f x = c :: s → s.length = w.length) : Whole f (c :: w) := by
  intro xs
  induction xs with
  | nil => simp
  | cons x xs ih =>
    intro a b h
    rw [List.flatMap_cons, List.append_assoc] at h
    have hrest (k : Bytes) (hk : xs.flatMap f = k ++ (c :: w) ++ b) (ha : a = f x ++ k) :
        ∃ l y r, x :: xs = l ++ y :: r ∧ l.flatMap f = a ∧ f y = c :: w ∧ r.flatMap f = b := by
      obtain ⟨l, y, r, rfl, rfl, hy, hr⟩ := ih k b hk
      exact ⟨x :: l, y, r, rfl, ha.symm, hy, hr⟩
    obtain ⟨k, ha, hk⟩ | ⟨k, hx, hk⟩ := List.append_eq_append_iff.mp h
    · exact hrest k (hk.trans (List.append_assoc ..).symm) ha
    · cases k with
      | nil => exact hrest [] hk.symm (by simpa using hx.symm)
      | cons d k =>
        obtain ⟨rfl, -⟩ := List.cons.inj hk
        -- the first byte stands in this block, so it is the block's first byte
        cases a with
        | nil =>
          obtain ⟨rfl, hb⟩ := List.append_inj (List.cons.inj hk).2 (hl x k hx).symm
          exact ⟨[], x, xs, rfl, rfl, hx, hb.symm⟩
        | cons e a => exact absurd (by simp [hx]) (ht x)

theorem whole_byte (b : UInt8) : Whole (fun b : UInt8 => [b]) [b] :=
  whole_of_first (by simp) (by simp)

variable {f : α → Bytes} {w : Bytes}

theorem Whole.infix_iff (h : Whole f w) (xs : List α) :
    w <:+: xs.flatMap f ↔ ∃ x ∈ xs, f x = w := by
  constructor
  · rintro ⟨a, b, hab⟩
    obtain ⟨l, x, r, rfl, -, hx, -⟩ := h xs a b hab.symm
    exact ⟨x, by simp, hx⟩
  · rintro ⟨x, hx, rfl⟩
    obtain ⟨l, r, rfl⟩ := List.append_of_mem hx
    exact ⟨l.flatMap f, r.flatMap f, by simp⟩

theorem Whole.prefix_iff (h : Whole f w) (hne : ∀ x, f x ≠ []) (xs : List α) :
    w <+: xs.flatMap f ↔ ∃ x r, xs = x :: r ∧ f x = w := by
  constructor
  · rintro ⟨b, hb⟩
    obtain ⟨l, x, r, rfl, hl, hx, -⟩ := h xs [] b hb.symm
    cases l with
    | nil => exact ⟨x, r, rfl, hx⟩
    | cons y l => exact absurd (List.append_eq_nil_iff.mp hl).1 (hne y)
  · rintro ⟨x, r, rfl, rfl⟩
    exact List.prefix_append ..

theorem Whole.suffix_iff (h : Whole f w) (hne : ∀ x, f x ≠ []) (xs : List α) :
    w <:+ xs.flatMap f ↔ ∃ l x, xs = l ++ [x] ∧ f x = w := by
  constructor
  · rintro ⟨a, ha⟩
    obtain ⟨l, x, r, rfl, -, hx, hr⟩ := h xs a [] ((List.append_nil _).trans ha).symm
    cases r with
    | nil => exact ⟨l, x, rfl, hx⟩
    | cons y r => exact absurd (List.append_eq_nil_iff.mp hr).1 (hne y)
  · rintro ⟨l, x, rfl, rfl⟩
    exact ⟨l.flatMap f, by simp⟩

theorem coupled_flatMap_iff {first second : Bytes} (hf : Whole f first) (hs : Whole f second)
    (hne : ∀ x, f x ≠ []) (xs : List α) :
    Coupled first second (xs.flatMap f) ↔ Paired (f · = first) (f · = second) xs := by
  constructor
  · intro h l x r he
    obtain ⟨hfirst, hsecond⟩ := h (l.flatMap f) (r.flatMap f)
    constructor
    · intro hx
      exact (hs.prefix_iff hne r).mp (hfirst (by simp [he, ← hx]))
    · intro hx
      exact (hf.suffix_iff hne l).mp (hsecond (by simp [he, ← hx]))
  · intro h a b
    constructor
    · intro hab
      obtain ⟨l, x, r, rfl, rfl, hx, rfl⟩ := hf xs a b hab
      exact (hs.prefix_iff hne r).mpr ((h l x r rfl).1 hx)
    · intro hab
      obtain ⟨l, x, r, rfl, rfl, hx, rfl⟩ := hs xs a b hab
      exact (hf.suffix_iff hne l).mpr ((h l x r rfl).2 hx)

end YamlLayout
