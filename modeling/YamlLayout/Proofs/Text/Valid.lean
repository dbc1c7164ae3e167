import YamlLayout.Proofs.Text.Blank

/-! Texts that read as UTF-8. A byte of ASCII is a character by itself wherever it stands,
so that such a text may be cut there, and whole pieces of ASCII may give way to other
such texts. -/
namespace YamlLayout.Utf8

def Valid (bs : Bytes) : Prop := (decode? bs).isSome = true

instance (bs : Bytes) : Decidable (Valid bs) := inferInstanceAs (Decidable (_ = _))

theorem valid_iff {bs : Bytes} : Valid bs ↔ ∃ cs, encodeAll cs = bs := by
  simp only [Valid, Option.isSome_iff_exists, decode?_eq_some_iff]

theorem valid_nil : Valid [] := by decide

theorem valid_encode (c : Char) : Valid (encode c) :=
  valid_iff.mpr ⟨[c], by simp [encodeAll]⟩

theorem Valid.append {a b : Bytes} (ha : Valid a) (hb : Valid b) : Valid (a ++ b) := by
  obtain ⟨cs, rfl⟩ := valid_iff.mp ha
  obtain ⟨ds, rfl⟩ := valid_iff.mp hb
  exact valid_iff.mpr ⟨cs ++ ds, encodeAll_append cs ds⟩

def Ascii (bs : Bytes) : Prop := ∀ b ∈ bs, b.toNat < 0x80

instance (bs : Bytes) : Decidable (Ascii bs) := List.decidableBAll _ bs

theorem Ascii.valid {bs : Bytes} (h : Ascii bs) : Valid bs :=
  valid_iff.mpr ⟨_, encodeAll_ofNat_ascii bs h⟩

theorem Valid.around {a r : Bytes} {b : UInt8} (hb : b.toNat < 0x80) (h : Valid (a ++ b :: r)) :
    Valid a ∧ Valid r := by
  obtain ⟨cs, hcs⟩ := valid_iff.mp h
  clear h
  induction cs generalizing a with
  | nil => exact absurd (congrArg List.length hcs) (by simp [encodeAll])
  | cons c cs ih =>
    rw [encodeAll_cons] at hcs
    obtain ⟨k, rfl, hk⟩ | ⟨k, hk, hr⟩ := List.append_eq_append_iff.mp hcs
    · -- the byte stands behind the first character
      obtain ⟨ha, hr⟩ := ih hk
      exact ⟨(valid_encode c).append ha, hr⟩
    · cases k with
      | nil =>
        obtain ⟨ha, hr⟩ := ih (a := []) hr.symm
        rw [List.append_nil] at hk
        exact ⟨hk ▸ valid_encode c, hr⟩
      | cons e k =>
        obtain ⟨rfl, rfl⟩ := List.cons.inj hr
        -- the byte is of the first character, which then has no other
        have hn := toNat_of_ascii_mem (hk ▸ List.mem_append_right a List.mem_cons_self) hb
        have hc : a ++ b :: k = [b] := by
          rw [← hk, encode_ascii (by omega), hn, UInt8.ofNat_toNat]
        obtain ⟨rfl, rfl⟩ : a = [] ∧ k = [] := by
          simpa [List.append_eq_singleton_iff] using hc
        exact ⟨valid_nil, valid_iff.mpr ⟨cs, rfl⟩⟩

theorem Valid.around_ascii {a s r : Bytes} (hs : Ascii s) (hne : s ≠ [])
    (h : Valid (a ++ (s ++ r))) : Valid a ∧ Valid r := by
  induction s generalizing a with
  | nil => exact absurd rfl hne
  | cons b s ih =>
    obtain ⟨hb, hrest⟩ := List.forall_mem_cons.mp hs
    obtain ⟨ha, hr⟩ := Valid.around hb h
    cases s with
    | nil => exact ⟨ha, hr⟩
    | cons e s => exact ⟨ha, (ih hrest (List.cons_ne_nil e s) (a := []) hr).2⟩

/-- Pieces of a text kept as they are or, where they are of ASCII, put as other texts. -/
theorem Valid.flatMap {ι : Type} {source target : ι → Bytes} {xs : List ι}
    (hx : ∀ x ∈ xs, target x = source x ∨
      Ascii (source x) ∧ source x ≠ [] ∧ Valid (target x))
    {a : Bytes} (h : Valid (a ++ xs.flatMap source)) : Valid (a ++ xs.flatMap target) := by
  induction xs generalizing a with
  | nil => exact h
  | cons x xs ih =>
    obtain ⟨hfirst, hrest⟩ := List.forall_mem_cons.mp hx
    rw [List.flatMap_cons] at h ⊢
    cases hfirst with
    | inl he =>
      rw [← List.append_assoc] at h ⊢
      rw [he]
      exact ih hrest h
    | inr hs =>
      obtain ⟨hs, hne, ht⟩ := hs
      obtain ⟨ha, hr⟩ := Valid.around_ascii hs hne h
      exact ha.append (ht.append (ih hrest (a := []) hr))

theorem Valid.flatMap_bytes {f : UInt8 → Bytes} {c : Bytes} (h : Valid c)
    (hf : ∀ b, f b = [b] ∨ b.toNat < 0x80 ∧ Valid (f b)) : Valid (c.flatMap f) := by
  have hs : Valid ([] ++ c.flatMap fun b => [b]) := by simpa using h
  have ht : Valid ([] ++ c.flatMap f) := by
    refine Valid.flatMap (fun b _ => (hf b).imp_right fun hb => ?_) hs
    exact ⟨by simpa [Ascii] using hb.1, by simp, hb.2⟩
  exact ht

end YamlLayout.Utf8
