import Mathlib.Data.List.Basic
import YamlLayout.Text.Utf8

/-! Reading a text undoes encoding it, and only encoded texts read: the bytes of a
character give back its code point, and its first byte tells how many there are. -/
namespace YamlLayout.Utf8

theorem encode_eq (c : Char) : encode c =
    if c.toNat ≤ 0x7F then [.ofNat c.toNat]
    else if c.toNat ≤ 0x7FF then [.ofNat (c.toNat / 64 % 32 + 192), .ofNat (c.toNat % 64 + 128)]
    else if c.toNat ≤ 0xFFFF then
      [.ofNat (c.toNat / 4096 % 16 + 224), .ofNat (c.toNat / 64 % 64 + 128),
        .ofNat (c.toNat % 64 + 128)]
    else
      [.ofNat (c.toNat / 262144 % 8 + 240), .ofNat (c.toNat / 4096 % 64 + 128),
        .ofNat (c.toNat / 64 % 64 + 128), .ofNat (c.toNat % 64 + 128)] := rfl

theorem toNat_lt (c : Char) : c.toNat < 0x110000 := by
  have h := c.valid
  simp only [UInt32.isValidChar, Nat.isValidChar] at h
  change c.val.toNat < _
  omega

theorem encode_ascii {c : Char} (h : c.toNat < 0x80) : encode c = [.ofNat c.toNat] := by
  rw [encode_eq, if_pos (by omega)]

theorem high_of_mem_encode {c : Char} (h : 0x80 ≤ c.toNat) {b : UInt8} (hb : b ∈ encode c) :
    0x80 ≤ b.toNat := by
  rw [encode_eq, if_neg (by omega)] at hb
  split at hb
  · simp only [List.mem_cons, List.not_mem_nil, or_false] at hb
    rcases hb with rfl | rfl <;> rw [UInt8.toNat_ofNat'] <;> omega
  · split at hb
    · simp only [List.mem_cons, List.not_mem_nil, or_false] at hb
      rcases hb with rfl | rfl | rfl <;> rw [UInt8.toNat_ofNat'] <;> omega
    · simp only [List.mem_cons, List.not_mem_nil, or_false] at hb
      rcases hb with rfl | rfl | rfl | rfl <;> rw [UInt8.toNat_ofNat'] <;> omega

theorem lt_of_mem_encode {c : Char} (h : c.toNat ≤ 0xFFFF) {b : UInt8} (hb : b ∈ encode c) :
    b.toNat < 0xF0 := by
  rw [encode_eq] at hb
  split at hb
  · rw [List.mem_singleton.mp hb, UInt8.toNat_ofNat']
    omega
  · split at hb
    · simp only [List.mem_cons, List.not_mem_nil, or_false] at hb
      rcases hb with rfl | rfl <;> rw [UInt8.toNat_ofNat'] <;> omega
    · simp only [List.mem_cons, List.not_mem_nil, or_false] at hb
      rcases hb with rfl | rfl | rfl <;> rw [UInt8.toNat_ofNat'] <;> omega

theorem exists_high_of_encode {c : Char} (h : 0xFFFF < c.toNat) :
    ∃ b ∈ encode c, 0xF0 ≤ b.toNat := by
  rw [encode_eq, if_neg (by omega), if_neg (by omega), if_neg (by omega)]
  refine ⟨_, List.mem_cons_self, ?_⟩
  rw [UInt8.toNat_ofNat']
  omega

theorem toNat_of_ascii_mem {c : Char} {b : UInt8} (hb : b ∈ encode c) (h : b.toNat < 0x80) :
    c.toNat = b.toNat := by
  by_cases hc : c.toNat < 0x80
  · rw [encode_ascii hc, List.mem_singleton] at hb
    rw [hb, UInt8.toNat_ofNat']
    omega
  · have := high_of_mem_encode (by omega) hb
    omega

theorem payload_encode (c : Char) : payload (encode c) = c.toNat := by
  have hc := toNat_lt c
  rw [encode_eq]
  split
  · simp only [payload, UInt8.toNat_ofNat']
    omega
  · split
    · simp only [payload, UInt8.toNat_ofNat']
      omega
    · split
      · simp only [payload, UInt8.toNat_ofNat']
        omega
      · simp only [payload, UInt8.toNat_ofNat']
        omega

theorem width_eq (a : UInt8) : width a =
    if a.toNat < 128 then 1 else if a.toNat < 224 then 2 else if a.toNat < 240 then 3 else 4 := by
  simp only [width, UInt8.lt_iff_toNat_lt]
  rfl

theorem encode_cons (c : Char) : ∃ a r, encode c = a :: r ∧ r.length + 1 = width a := by
  have hc := toNat_lt c
  rw [encode_eq]
  split
  · refine ⟨_, _, rfl, ?_⟩
    rw [width_eq, UInt8.toNat_ofNat', if_pos (by omega)]
    rfl
  · split
    · refine ⟨_, _, rfl, ?_⟩
      rw [width_eq, UInt8.toNat_ofNat', if_neg (by omega), if_pos (by omega)]
      rfl
    · split
      · refine ⟨_, _, rfl, ?_⟩
        rw [width_eq, UInt8.toNat_ofNat', if_neg (by omega), if_neg (by omega),
          if_pos (by omega)]
        rfl
      · refine ⟨_, _, rfl, ?_⟩
        rw [width_eq, UInt8.toNat_ofNat', if_neg (by omega), if_neg (by omega),
          if_neg (by omega)]
        rfl

theorem scalar?_toNat (c : Char) : scalar? c.toNat = some c := by
  have h : c.toNat.isValidChar := c.valid
  rw [scalar?, if_pos h, Char.ofNat_toNat]

theorem toNat_of_scalar? {n : Nat} {c : Char} (h : scalar? n = some c) : c.toNat = n := by
  unfold scalar? at h
  split at h
  · next hn =>
    rw [← Option.some.inj h, Char.ofNat, dif_pos hn]
    rfl
  · exact absurd h (by simp)

theorem char?_eq_some_iff {bs : Bytes} {c : Char} : char? bs = some c ↔ encode c = bs := by
  constructor
  · intro h
    have hf := (Option.filter_eq_some_iff.mp h).2
    exact beq_iff_eq.mp hf
  · rintro rfl
    rw [char?, payload_encode, scalar?_toNat]
    simp

theorem encode_inj {c d : Char} : encode c = encode d ↔ c = d := by
  rw [← char?_eq_some_iff, char?_eq_some_iff.mpr rfl, Option.some.injEq, eq_comm]

theorem decodeFrom_eq_drop (k : Nat) (r : Bytes) : decodeFrom k r = decodeFrom 0 (r.drop k) := by
  induction k generalizing r with
  | zero => rfl
  | succ k ih =>
    cases r with
    | nil => rfl
    | cons a r => exact ih r

theorem decode?_encode_append (c : Char) (r : Bytes) :
    decode? (encode c ++ r) = (decode? r).map (c :: ·) := by
  obtain ⟨a, s, he, hw⟩ := encode_cons c
  have ht : (a :: (s ++ r)).take (width a) = encode c := by
    rw [← List.cons_append, he, ← hw, ← List.length_cons]
    exact List.take_left
  have hd : (s ++ r).drop (width a - 1) = r := by
    have hl : width a - 1 = s.length := by omega
    rw [hl]
    exact List.drop_left
  rw [he, List.cons_append, decode?, decodeFrom, ht, char?_eq_some_iff.mpr rfl]
  change (decodeFrom (width a - 1) (s ++ r)).map (c :: ·) = _
  rw [decodeFrom_eq_drop, hd]
  rfl

theorem encodeAll_cons (c : Char) (cs : List Char) :
    encodeAll (c :: cs) = encode c ++ encodeAll cs :=
  rfl

theorem encodeAll_append (cs ds : List Char) :
    encodeAll (cs ++ ds) = encodeAll cs ++ encodeAll ds := by
  simp [encodeAll]

theorem decode?_encodeAll (cs : List Char) : decode? (encodeAll cs) = some cs := by
  induction cs with
  | nil => rfl
  | cons c cs ih => rw [encodeAll_cons, decode?_encode_append, ih, Option.map_some]

theorem encodeAll_of_decode? {bs : Bytes} {cs : List Char} (h : decode? bs = some cs) :
    encodeAll cs = bs := by
  generalize hn : bs.length = n
  induction n using Nat.strongRecOn generalizing bs cs with
  | ind n ih =>
    cases bs with
    | nil =>
      obtain rfl : [] = cs := Option.some.inj h
      rfl
    | cons a r =>
      rw [decode?, decodeFrom] at h
      cases hc : char? ((a :: r).take (width a)) with
      | none => simp [hc] at h
      | some c =>
        simp only [hc, Option.map_eq_some_iff] at h
        obtain ⟨ds, hd, rfl⟩ := h
        rw [decodeFrom_eq_drop] at hd
        have hlt : (r.drop (width a - 1)).length < n := by
          rw [← hn, List.length_drop, List.length_cons]
          omega
        have hw : 1 ≤ width a := by rw [width_eq]; split_ifs <;> omega
        have hdrop : r.drop (width a - 1) = (a :: r).drop (width a) := by
          rw [← List.drop_succ_cons, Nat.sub_add_cancel hw]
        rw [encodeAll_cons, ih _ hlt hd rfl, char?_eq_some_iff.mp hc, hdrop,
          List.take_append_drop]

theorem decode?_eq_some_iff {bs : Bytes} {cs : List Char} :
    decode? bs = some cs ↔ encodeAll cs = bs :=
  ⟨encodeAll_of_decode?, fun h => h ▸ decode?_encodeAll cs⟩

end YamlLayout.Utf8
