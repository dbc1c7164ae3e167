import Mathlib.Data.List.DropRight
import YamlLayout.Proofs.Directive
import YamlLayout.Proofs.Text.Valid

/-! White space by its characters, and the lines in which nothing else is written. Such a line
always reads, nothing of it stands between the white space at its ends, and two texts make such a
line only where each of them is one. -/
namespace YamlLayout
open Utf8

/-- The characters that have the property White_Space. -/
def whiteSpace : List Char :=
  ['\t', '\n', '\x0b', '\x0c', '\r', ' ', '\u0085', '\u00a0', '\u1680', '\u2000', '\u2001',
   '\u2002', '\u2003', '\u2004', '\u2005', '\u2006', '\u2007', '\u2008', '\u2009', '\u200a',
   '\u2028', '\u2029', '\u202f', '\u205f', '\u3000']

theorem isWhiteSpace_iff_mem (c : Char) : isWhiteSpace c = true ↔ c ∈ whiteSpace := by
  -- both sides speak of the code point alone
  have hinj : Function.Injective Char.toNat := fun _ _ h => Char.toNat_inj.mp h
  have hpoints : whiteSpace.map Char.toNat =
      [0x9, 0xA, 0xB, 0xC, 0xD, 0x20, 0x85, 0xA0, 0x1680, 0x2000, 0x2001, 0x2002, 0x2003, 0x2004,
       0x2005, 0x2006, 0x2007, 0x2008, 0x2009, 0x200A, 0x2028, 0x2029, 0x202F, 0x205F, 0x3000] :=
    rfl
  rw [← List.mem_map_of_injective hinj, hpoints]
  simp only [isWhiteSpace, whiteSpaceRanges, List.any_cons, List.any_nil, Bool.or_false,
    Bool.or_eq_true, Bool.and_eq_true, decide_eq_true_eq, List.mem_cons, List.not_mem_nil, or_false]
  omega

theorem rdropWhile_dropWhile_eq_nil_iff {α : Type} (p : α → Bool) (xs : List α) :
    (xs.dropWhile p).rdropWhile p = [] ↔ ∀ x ∈ xs, p x = true := by
  rw [List.rdropWhile_eq_nil_iff]
  constructor
  · intro h x hx
    rw [← List.takeWhile_append_dropWhile (p := p) (l := xs), List.mem_append] at hx
    cases hx with
    | inl hx => exact List.mem_takeWhile_imp hx
    | inr hx => exact h x hx
  · exact fun h x hx => h x ((List.dropWhile_sublist p).mem hx)

/-- What stands between the white space at the two ends of a line. Off a line that does not read
only white space of ASCII is taken. -/
def trimmed (l : Bytes) : Bytes :=
  match decode? l with
  | some cs => encodeAll (trimWhiteSpace cs)
  | none => (l.dropWhile isAsciiBlank).rdropWhile isAsciiBlank

theorem encodeAll_eq_nil_iff {cs : List Char} : encodeAll cs = [] ↔ cs = [] := by
  cases cs with
  | nil => simp [encodeAll]
  | cons c cs =>
    obtain ⟨a, r, he, -⟩ := encode_cons c
    simp [encodeAll_cons, he]

theorem isBlank_iff_trimmed (l : Bytes) : isBlank l = true ↔ trimmed l = [] := by
  unfold isBlank trimmed
  cases decode? l with
  | none => rw [List.all_eq_true, rdropWhile_dropWhile_eq_nil_iff]
  | some cs =>
    have htrim : trimWhiteSpace cs = (cs.dropWhile isWhiteSpace).rdropWhile isWhiteSpace := rfl
    simp only [List.all_eq_true, encodeAll_eq_nil_iff, htrim, rdropWhile_dropWhile_eq_nil_iff]

theorem valid_of_isBlank {l : Bytes} (h : isBlank l = true) : Valid l := by
  obtain ⟨cs, -, he⟩ := (isBlank_iff l).mp h
  exact valid_iff.mpr ⟨cs, he⟩

theorem isBlank_encodeAll (cs : List Char) : isBlank (encodeAll cs) = cs.all isWhiteSpace := by
  rw [isBlank, decode?_encodeAll]

theorem isBlank_append {a b : Bytes} (ha : Valid a) (hb : Valid b) :
    isBlank (a ++ b) = (isBlank a && isBlank b) := by
  obtain ⟨cs, rfl⟩ := valid_iff.mp ha
  obtain ⟨ds, rfl⟩ := valid_iff.mp hb
  simp only [← encodeAll_append, isBlank_encodeAll, List.all_append]

/-- A line is blank exactly where it is written in white space, and this is where nothing stands
between the white space at its ends. The byte-wise judgement of a line that does not read never
finds it blank. No directive line is blank and no placeholder, however indented; and a line that
is cut between two characters is blank just where both its parts are. -/
theorem isBlank_iff_whiteSpace (l : Bytes) :
    (isBlank l = true ↔ ∃ cs : List Char, (∀ c ∈ cs, c ∈ whiteSpace) ∧ encodeAll cs = l) ∧
    (isBlank l = true ↔ trimmed l = []) ∧
    (¬ Valid l → l.all isAsciiBlank = false ∧ isBlank l = false) ∧
    (l.head? = some Directive.marker → isBlank l = false) ∧
    (LineBreaks.placeholder <+: Lines.trimIndent l → isBlank l = false) ∧
    ∀ r, Valid l → Valid r → (isBlank (l ++ r) = true ↔ isBlank l = true ∧ isBlank r = true) := by
  refine ⟨?_, isBlank_iff_trimmed l, fun h => ⟨not_all_isAsciiBlank ?_, ?_⟩, fun h => ?_,
    fun h => ?_, fun r hl hr => ?_⟩
  · simp only [isBlank_iff, isWhiteSpace_iff_mem]
  · exact Option.not_isSome_iff_eq_none.mp h
  · by_contra hb
    exact h (valid_of_isBlank (by simpa using hb))
  · exact Directive.isBlank_of_isDirective (by simp [Directive.isDirective, h])
  · exact LineBreaks.not_blank_of_isPlaceholder (List.isPrefixOf_iff_prefix.mpr h)
  · rw [isBlank_append hl hr, Bool.and_eq_true]

theorem isBlank_iff_whiteSpace_overlong :
    let l : Bytes := [0x20, 0xC0, 0xA0, 0x20]
    let directive := Utf8.ofString "%\u2028"
    let placeholder := Utf8.ofString "  #magic___^_^___line"
    let a := Utf8.ofString "\t\u0085"
    let b := Utf8.ofString "\u3000\u000b"
    ¬ Valid l ∧ l.all isAsciiBlank = false ∧ isBlank l = false ∧
    directive.head? = some Directive.marker ∧ isBlank directive = false ∧
    LineBreaks.placeholder <+: Lines.trimIndent placeholder ∧ isBlank placeholder = false ∧
    Valid a ∧ Valid b ∧ isBlank (a ++ b) = true := by
  intro l directive placeholder a b
  have hl : ¬ Valid l := by decide +kernel
  have hd : directive.head? = some Directive.marker := by decide +kernel
  have hp : LineBreaks.placeholder <+: Lines.trimIndent placeholder := by decide +kernel
  have ha : Valid a := by decide +kernel
  have hb : Valid b := by decide +kernel
  have hparts : isBlank a = true ∧ isBlank b = true := by decide +kernel
  obtain ⟨hall, hblank⟩ := (isBlank_iff_whiteSpace l).2.2.1 hl
  have hd' := (isBlank_iff_whiteSpace directive).2.2.2.1 hd
  have hp' := (isBlank_iff_whiteSpace placeholder).2.2.2.2.1 hp
  have hwhole := ((isBlank_iff_whiteSpace a).2.2.2.2.2 b ha hb).mpr hparts
  exact ⟨hl, hall, hblank, hd, hd', hp, hp', ha, hb, hwhole⟩

-- one character cut in two: the whole is blank, and neither part reads
example : isBlank ([0xC2] ++ [0x85]) = true ∧ isBlank [0xC2] = false ∧ isBlank [0x85] = false := by
  decide

end YamlLayout
