import YamlLayout.Proofs.Lines
import YamlLayout.Proofs.Text.Utf8

/-! A line is blank just where it encodes white space; the byte-wise judgement of a
line that does not read never says so. A final carriage return changes nothing. -/
namespace YamlLayout
open Utf8

theorem encodeAll_ofNat_ascii (bs : Bytes) (h : ∀ b ∈ bs, b.toNat < 0x80) :
    encodeAll (bs.map fun b => Char.ofNat b.toNat) = bs := by
  induction bs with
  | nil => rfl
  | cons b bs ih =>
    have hb : b.toNat < 0x80 := h b List.mem_cons_self
    have hv : b.toNat.isValidChar := Or.inl (by omega)
    have hn : (Char.ofNat b.toNat).toNat = b.toNat := toNat_of_scalar? (by rw [scalar?, if_pos hv])
    have hr := ih fun a ha => h a (List.mem_cons_of_mem b ha)
    rw [List.map_cons, encodeAll_cons, hr, encode_ascii (by omega), hn]
    simp

theorem toNat_lt_of_isAsciiBlank {b : UInt8} (h : isAsciiBlank b = true) : b.toNat < 0x80 := by
  simp only [isAsciiBlank, Bool.or_eq_true, beq_iff_eq] at h
  rcases h with (((rfl | rfl) | rfl) | rfl) | rfl <;> decide

/-- White space of ASCII reads, so that a line without a reading holds something else. -/
theorem not_all_isAsciiBlank {l : Bytes} (h : decode? l = none) : l.all isAsciiBlank = false := by
  by_contra hall
  have hblank : ∀ b ∈ l, isAsciiBlank b = true := by simpa using hall
  have hread := encodeAll_ofNat_ascii l fun b hb => toNat_lt_of_isAsciiBlank (hblank b hb)
  rw [← hread, decode?_encodeAll] at h
  exact absurd h (by simp)

theorem isBlank_iff (l : Bytes) :
    isBlank l = true ↔ ∃ cs : List Char, (∀ c ∈ cs, isWhiteSpace c = true) ∧ encodeAll cs = l := by
  cases hd : decode? l with
  | none =>
    simp only [isBlank, hd, not_all_isAsciiBlank hd, Bool.false_eq_true, false_iff]
    rintro ⟨cs, -, e⟩
    rw [← e, decode?_encodeAll] at hd
    exact absurd hd (by simp)
  | some cs =>
    simp only [isBlank, hd, List.all_eq_true]
    constructor
    · intro h
      exact ⟨cs, h, encodeAll_of_decode? hd⟩
    · rintro ⟨ds, h, e⟩
      obtain rfl : cs = ds := Option.some.inj (hd.symm.trans (decode?_eq_some_iff.mpr e))
      exact h

theorem isWhiteSpace_of_mem_isBlank {l : Bytes} (h : isBlank l = true) {b : UInt8} (hb : b ∈ l)
    (ha : b.toNat < 0x80) : isWhiteSpace (Char.ofNat b.toNat) = true := by
  obtain ⟨cs, hw, rfl⟩ := (isBlank_iff l).mp h
  obtain ⟨c, hc, hm⟩ := List.mem_flatMap.mp hb
  rw [← toNat_of_ascii_mem hm ha, Char.ofNat_toNat]
  exact hw c hc

theorem toNat_le_of_isWhiteSpace {c : Char} (h : isWhiteSpace c = true) : c.toNat ≤ 0x3000 := by
  simp only [isWhiteSpace, whiteSpaceRanges, List.any_cons, List.any_nil, Bool.or_false,
    Bool.or_eq_true, Bool.and_eq_true, decide_eq_true_eq] at h
  omega

theorem not_blank_of_far {l : Bytes} {c : Char} (hc : 0xFFFF < c.toNat) (h : encode c ⊆ l) :
    isBlank l = false := by
  by_contra hb
  obtain ⟨cs, hw, rfl⟩ := (isBlank_iff l).mp (by simpa using hb)
  obtain ⟨b, hm, hhigh⟩ := exists_high_of_encode hc
  obtain ⟨d, hd, hbd⟩ := List.mem_flatMap.mp (h hm)
  have hle := toNat_le_of_isWhiteSpace (hw d hd)
  have := lt_of_mem_encode (by omega) hbd
  omega

theorem isBlank_append_return (l : Bytes) : isBlank (l ++ [carriageReturn]) = isBlank l := by
  have hr : encode '\r' = [carriageReturn] := by decide
  rw [Bool.eq_iff_iff, isBlank_iff, isBlank_iff]
  constructor
  · rintro ⟨cs, hw, e⟩
    cases List.eq_nil_or_concat' cs with
    | inl hn =>
      subst hn
      exact absurd (congrArg List.length e) (by simp [encodeAll])
    | inr hc =>
      obtain ⟨ds, c, rfl⟩ := hc
      -- the last byte is ASCII, so the last character is the carriage return itself
      obtain ⟨a, s, hs, -⟩ := encode_cons c
      have hlast : (encode c).getLast? = some carriageReturn := by
        have hg := congrArg List.getLast? e
        rw [encodeAll_append, encodeAll_cons] at hg
        simpa [encodeAll, hs] using hg
      have hc : c = '\r' :=
        Char.toNat_inj.mp (toNat_of_ascii_mem (List.mem_of_getLast? hlast) (by decide))
      subst hc
      refine ⟨ds, fun c hm => hw c (List.mem_append_left _ hm), ?_⟩
      rw [encodeAll_append, encodeAll_cons, hr] at e
      exact List.append_cancel_right e
  · rintro ⟨cs, hw, rfl⟩
    refine ⟨cs ++ ['\r'], ?_, ?_⟩
    · intro c hc
      cases List.mem_append.mp hc with
      | inl hc => exact hw c hc
      | inr hc =>
        rw [List.mem_singleton.mp hc]
        decide
    · rw [encodeAll_append, encodeAll_cons, hr]
      rfl

theorem isBlank_dropFinalReturn (l : Bytes) : isBlank (Lines.dropFinalReturn l) = isBlank l := by
  cases Lines.dropFinalReturn_cases l with
  | inl e => rw [e]
  | inr e => rw [e, Lines.dropFinalReturn_append, isBlank_append_return]

end YamlLayout
