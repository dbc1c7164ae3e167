import Mathlib.Algebra.Group.Nat.Defs
import Mathlib.Data.List.Induction
import YamlLayout.Escape
import YamlLayout.Proofs.Text.Utf8

/-! The digits of an escape: the number they write, the same number gathered four bits
at a time, and the digits that an error shows for it. -/
namespace YamlLayout.Escape
open Utf8

def upperDigits : Bytes := ofString "0123456789ABCDEF"

def isDigit (b : UInt8) : Bool := upperDigits.contains b

def numberFrom (n : Nat) (ds : Bytes) : Nat := ds.foldl (fun n b => 16 * n + upperDigits.idxOf b) n

def number (ds : Bytes) : Nat := numberFrom 0 ds

theorem numberFrom_cons (n : Nat) (b : UInt8) (ds : Bytes) :
    numberFrom n (b :: ds) = numberFrom (16 * n + upperDigits.idxOf b) ds := rfl

theorem number_append (ds : Bytes) (b : UInt8) :
    number (ds ++ [b]) = 16 * number ds + upperDigits.idxOf b := by
  simp [number, numberFrom]

theorem forall_byte {P : UInt8 → Prop} (h : ∀ n : Fin 256, P (.ofNat n.val)) (b : UInt8) : P b := by
  have hb := h ⟨b.toNat, b.toNat_lt⟩
  rwa [UInt8.ofNat_toNat] at hb

theorem hexValue?_eq (b : UInt8) :
    hexValue? b = if isDigit b then some (.ofNat (upperDigits.idxOf b)) else none := by
  revert b
  exact forall_byte (by decide +kernel)

theorem idxOf_lt {b : UInt8} (h : isDigit b = true) : upperDigits.idxOf b < 16 :=
  List.idxOf_lt_length_of_mem (by simpa [isDigit] using h)

theorem isDigit_lineFeed : isDigit 0x0A = false := by decide

theorem numberFrom_lt {k n : Nat} {ds : Bytes} (hn : n < 16 ^ k)
    (hd : ∀ b ∈ ds, isDigit b = true) : numberFrom n ds < 16 ^ (k + ds.length) := by
  induction ds generalizing k n with
  | nil => exact hn
  | cons b ds ih =>
    have hb := idxOf_lt (hd b List.mem_cons_self)
    have hr : 16 * n + upperDigits.idxOf b < 16 ^ (k + 1) := by
      rw [Nat.pow_succ]
      omega
    have hlen : k + (b :: ds).length = k + 1 + ds.length := by
      rw [List.length_cons]
      omega
    rw [numberFrom_cons, hlen]
    exact ih hr fun a ha => hd a (List.mem_cons_of_mem b ha)

theorem exists_digits {k n : Nat} (hn : n < 16 ^ k) :
    ∃ ds : Bytes, ds.length = k ∧ (∀ b ∈ ds, isDigit b = true) ∧ number ds = n := by
  induction k generalizing n with
  | zero =>
    have h0 : n = 0 := by omega
    exact ⟨[], rfl, by simp, h0.symm⟩
  | succ k ih =>
    have hall : ∀ d : Fin 16, isDigit (upperDigits.getD d 0) = true ∧
        upperDigits.idxOf (upperDigits.getD d 0) = d.val := by decide
    obtain ⟨hb, hi⟩ := hall ⟨n % 16, Nat.mod_lt n (by omega)⟩
    obtain ⟨ds, hl, hd, hq⟩ := ih (n := n / 16) (by rw [Nat.pow_succ] at hn; omega)
    refine ⟨ds ++ [upperDigits.getD (n % 16) 0], by simp [hl], fun b hm => ?_, ?_⟩
    · cases List.mem_append.mp hm with
      | inl hm => exact hd b hm
      | inr hm => exact List.mem_singleton.mp hm ▸ hb
    · rw [number_append, hq, hi]
      exact Nat.div_add_mod n 16

/-- A shift by four bits and a digit lose nothing while fewer than eight digits are in. -/
theorem shift_or_digit {n d : Nat} (hn : n < 2 ^ 28) (hd : d < 16) :
    (UInt32.ofNat n <<< 4) ||| UInt32.ofNat d = UInt32.ofNat (16 * n + d) := by
  have hor : n <<< 4 ||| d = 16 * n + d := by
    rw [← Nat.shiftLeft_add_eq_or_of_lt hd, Nat.shiftLeft_eq]
    omega
  have hn' : n < 2 ^ 32 := by omega
  have hd' : d < 2 ^ 32 := by omega
  have hlt : 16 * n + d < 2 ^ 32 := by omega
  apply UInt32.toNat.inj
  rw [UInt32.toNat_or, UInt32.toNat_shiftLeft, UInt32.toNat_ofNat', UInt32.toNat_ofNat',
    UInt32.toNat_ofNat', Nat.mod_eq_of_lt hn', Nat.mod_eq_of_lt hd', Nat.mod_eq_of_lt hlt, ← hor]
  have hs : n <<< 4 < 2 ^ 32 := by
    rw [Nat.shiftLeft_eq]
    omega
  exact congrArg (· ||| d) (Nat.mod_eq_of_lt hs)

def upperChar (d : Nat) : Char := d.digitChar.toUpper

theorem encode_upperChar {b : UInt8} (h : isDigit b = true) :
    encode (upperChar (upperDigits.idxOf b)) = [b] := by
  have hall := forall_byte (P := fun b => isDigit b = true →
    encode (upperChar (upperDigits.idxOf b)) = [b]) (by decide +kernel)
  exact hall b h

theorem upperHex_digit {n : Nat} (h : n < 16) : Digits.upperHex 1 n = [upperChar n] := by
  simp [Digits.upperHex, Nat.toDigits_of_lt_base h, upperChar]

theorem upperHex_succ (k n : Nat) (hk : 0 < k) :
    Digits.upperHex (k + 1) n = Digits.upperHex k (n / 16) ++ [upperChar (n % 16)] := by
  by_cases h : n < 16
  · have hz : Digits.upperHex k 0 = List.replicate k '0' := by
      rw [Digits.upperHex, Nat.toDigits_zero]
      change List.replicate (k - 1) '0' ++ ['0'] = _
      rw [← List.replicate_succ', Nat.sub_add_cancel hk]
    rw [Nat.div_eq_of_lt h, Nat.mod_eq_of_lt h, hz, Digits.upperHex, Nat.toDigits_of_lt_base h]
    rfl
  · have hd := Nat.toDigits_of_base_le (b := 16) (n := n) (by omega) (by omega)
    simp only [Digits.upperHex, hd, List.map_append, List.length_append, List.map_cons,
      List.map_nil, List.length_cons, List.length_nil]
    rw [Nat.zero_add, Nat.add_sub_add_right, List.append_assoc]
    rfl

theorem encodeAll_upperHex {ds : Bytes} (hne : ds ≠ []) (hd : ∀ b ∈ ds, isDigit b = true) :
    encodeAll (Digits.upperHex ds.length (number ds)) = ds := by
  induction ds using List.reverseRecOn with
  | nil => exact absurd rfl hne
  | append_singleton ds b ih =>
    have hb : isDigit b = true := hd b (by simp)
    have hlt := idxOf_lt hb
    have hr : ∀ a ∈ ds, isDigit a = true := fun a ha => hd a (List.mem_append_left _ ha)
    cases ds with
    | nil =>
      have hn : number ([] ++ [b]) = upperDigits.idxOf b := by simp [number, numberFrom]
      rw [hn]
      change encodeAll (Digits.upperHex 1 _) = _
      rw [upperHex_digit hlt, encodeAll_cons, encode_upperChar hb]
      rfl
    | cons a ds =>
      have hq : number ((a :: ds) ++ [b]) / 16 = number (a :: ds) := by
        rw [number_append]
        omega
      have hm : number ((a :: ds) ++ [b]) % 16 = upperDigits.idxOf b := by
        rw [number_append]
        omega
      have hl : 0 < (a :: ds).length := Nat.succ_pos _
      rw [List.length_append, List.length_singleton, upperHex_succ _ _ hl, hq, hm,
        encodeAll_append, ih (List.cons_ne_nil a ds) hr, encodeAll_cons, encode_upperChar hb]
      rfl

end YamlLayout.Escape
