import Mathlib.Data.List.TakeWhile
import YamlLayout.Proofs.Escape.Digits

/-! The texts that escapes are read from: bytes other than a backslash, and escapes of
eight digits that write a character. A text is a row of such tokens, or breaks off with
a fault at the backslash of the first that is none. -/
namespace YamlLayout.Escape
open Utf8

structure EightDigits (ds : Bytes) : Prop where
  length_eq : ds.length = digitCount
  upper : ∀ b ∈ ds, isDigit b = true

inductive Token where
  | plain (b : UInt8) (h : b ≠ lead)
  | escape (ds : Bytes) (c : Char) (hd : EightDigits ds) (hc : number ds = c.toNat)

def Token.source : Token → Bytes
  | plain b _ => [b]
  | escape ds _ _ _ => lead :: marker :: ds

def Token.output : Token → Bytes
  | plain b _ => [b]
  | escape _ c _ _ => encode c

def sources (ts : List Token) : Bytes := ts.flatMap Token.source

def outputs (ts : List Token) : Bytes := ts.flatMap Token.output

/-- What may stand behind a backslash when the text ends inside an escape. -/
inductive Begun : Bytes → Prop where
  | lead : Begun []
  | marker (ds : Bytes) (hl : ds.length < digitCount) (hd : ∀ b ∈ ds, isDigit b = true) :
    Begun (marker :: ds)

def continues (begun : Bytes) (b : UInt8) : Bool :=
  if begun = [] then b == marker else isDigit b

/-- Why no token starts at a backslash at offset `s`, from the text behind it. -/
inductive Fault (s : Nat) : Bytes → Error → Prop where
  | cut {r : Bytes} (h : Begun r) : Fault s r (.unexpectedEndOfBuffer s)
  | offending {p : Bytes} {b : UInt8} (rest : Bytes) (h : Begun p) (hb : continues p b = false) :
    Fault s (p ++ b :: rest) (.invalidCodePointSequence (s + 1 + p.length))
  | outOfRange {ds : Bytes} (rest : Bytes) (hd : EightDigits ds) (hn : scalar? (number ds) = none) :
    Fault s (marker :: (ds ++ rest)) (.codePointOutOfRange (.ofNat (number ds)) s)

/-- The digits at the front of a text, no more than an escape takes. -/
def digitRun (r : Bytes) : Bytes := (r.take digitCount).takeWhile isDigit

def escapeAt (s : Nat) : Bytes → Except Error Char
  | [] => .error (.unexpectedEndOfBuffer s)
  | b :: r =>
    if b = marker then
      let ds := digitRun r
      if ds.length = digitCount then
        match scalar? (number ds) with
        | some c => .ok c
        | none => .error (.codePointOutOfRange (.ofNat (number ds)) s)
      else if ds.length = r.length then .error (.unexpectedEndOfBuffer s)
      else .error (.invalidCodePointSequence (s + 2 + ds.length))
    else .error (.invalidCodePointSequence (s + 1))

/-- Token by token from the left, the text standing at offset `s`. -/
def read (s : Nat) : Bytes → Except Error Bytes
  | [] => .ok []
  | b :: r =>
    if b = lead then
      match escapeAt s r with
      | .ok c => (read (s + 10) (r.drop 9)).map (encode c ++ ·)
      | .error e => .error e
    else (read (s + 1) r).map (b :: ·)
termination_by c => c.length
decreasing_by
  · rw [List.length_drop, List.length_cons]
    omega
  · rw [List.length_cons]
    omega

theorem read_plain {b : UInt8} (h : b ≠ lead) (s : Nat) (r : Bytes) :
    read s (b :: r) = (read (s + 1) r).map (b :: ·) := by
  rw [read, if_neg h]

theorem read_lead (s : Nat) (r : Bytes) :
    read s (lead :: r) =
      match escapeAt s r with
      | .ok c => (read (s + 10) (r.drop 9)).map (encode c ++ ·)
      | .error e => .error e := by
  rw [read, if_pos rfl]

theorem digits_cases (k : Nat) (r : Bytes) :
    (∃ ds rest, r = ds ++ rest ∧ ds.length = k ∧ ∀ b ∈ ds, isDigit b = true) ∨
    (r.length < k ∧ ∀ b ∈ r, isDigit b = true) ∨
    (∃ ds b rest, r = ds ++ b :: rest ∧ ds.length < k ∧ (∀ b ∈ ds, isDigit b = true) ∧
      isDigit b = false) := by
  induction k generalizing r with
  | zero => exact Or.inl ⟨[], r, rfl, rfl, by simp⟩
  | succ k ih =>
    cases r with
    | nil => exact Or.inr (Or.inl ⟨Nat.succ_pos k, by simp⟩)
    | cons a r =>
      cases ha : isDigit a with
      | false => exact Or.inr (Or.inr ⟨[], a, r, rfl, Nat.succ_pos k, by simp, ha⟩)
      | true =>
        obtain ⟨ds, rest, rfl, hl, hd⟩ | ⟨hl, hd⟩ | ⟨ds, b, rest, rfl, hl, hd, hb⟩ := ih r
        · exact Or.inl ⟨a :: ds, rest, rfl, by rw [List.length_cons, hl],
            List.forall_mem_cons.mpr ⟨ha, hd⟩⟩
        · exact Or.inr (Or.inl ⟨by rw [List.length_cons]; omega,
            List.forall_mem_cons.mpr ⟨ha, hd⟩⟩)
        · exact Or.inr (Or.inr ⟨a :: ds, b, rest, rfl, by rw [List.length_cons]; omega,
            List.forall_mem_cons.mpr ⟨ha, hd⟩, hb⟩)

theorem escape_cases (s : Nat) (r : Bytes) :
    (∃ ds rest, ∃ c : Char,
      r = marker :: (ds ++ rest) ∧ EightDigits ds ∧ number ds = c.toNat) ∨
    ∃ e, Fault s r e := by
  cases r with
  | nil => exact Or.inr ⟨_, Fault.cut Begun.lead⟩
  | cons a r =>
    by_cases ha : a = marker
    · subst ha
      obtain ⟨ds, rest, rfl, hl, hd⟩ | ⟨hl, hd⟩ | ⟨ds, b, rest, rfl, hl, hd, hb⟩ :=
        digits_cases digitCount r
      · cases hc : scalar? (number ds) with
        | none => exact Or.inr ⟨_, Fault.outOfRange rest ⟨hl, hd⟩ hc⟩
        | some c => exact Or.inl ⟨ds, rest, c, rfl, ⟨hl, hd⟩, (toNat_of_scalar? hc).symm⟩
      · exact Or.inr ⟨_, Fault.cut (Begun.marker r hl hd)⟩
      · exact Or.inr ⟨_, Fault.offending (p := marker :: ds) rest (Begun.marker ds hl hd)
          (by simp [continues, hb])⟩
    · exact Or.inr ⟨_, Fault.offending (p := []) r Begun.lead (by simp [continues, ha])⟩

theorem Token.source_ne_nil (t : Token) : t.source ≠ [] := by
  cases t <;> exact List.cons_ne_nil _ _

theorem Token.output_ne_nil (t : Token) : t.output ≠ [] := by
  cases t with
  | plain b h => exact List.cons_ne_nil b []
  | escape ds c hd hc =>
    obtain ⟨a, r, he, -⟩ := encode_cons c
    change encode c ≠ []
    rw [he]
    exact List.cons_ne_nil a r

theorem sources_cons (t : Token) (ts : List Token) : sources (t :: ts) = t.source ++ sources ts :=
  rfl

theorem outputs_cons (t : Token) (ts : List Token) : outputs (t :: ts) = t.output ++ outputs ts :=
  rfl

theorem sources_append (ts us : List Token) : sources (ts ++ us) = sources ts ++ sources us :=
  List.flatMap_append

theorem outputs_append (ts us : List Token) : outputs (ts ++ us) = outputs ts ++ outputs us :=
  List.flatMap_append

theorem tokens_or_fault (s : Nat) (c : Bytes) :
    (∃ ts, c = sources ts) ∨
    ∃ ts r e, c = sources ts ++ lead :: r ∧ Fault (s + (sources ts).length) r e := by
  generalize hn : c.length = n
  induction n using Nat.strongRecOn generalizing s c with
  | ind n ih =>
    -- a first token leaves a shorter text, to which the hypothesis applies
    have hnext (t : Token) (r : Bytes) (hc : c = t.source ++ r) (hlt : r.length < n) :
        (∃ ts, c = sources ts) ∨
        ∃ ts r e, c = sources ts ++ lead :: r ∧ Fault (s + (sources ts).length) r e := by
      obtain ⟨ts, rfl⟩ | ⟨ts, q, e, rfl, he⟩ := ih r.length hlt (s + t.source.length) r rfl
      · exact Or.inl ⟨t :: ts, hc⟩
      · refine Or.inr ⟨t :: ts, q, e, by rw [hc, sources_cons, List.append_assoc], ?_⟩
        rwa [sources_cons, List.length_append, ← Nat.add_assoc]
    cases c with
    | nil => exact Or.inl ⟨[], rfl⟩
    | cons b r =>
      rw [List.length_cons] at hn
      by_cases hb : b = lead
      · subst hb
        obtain ⟨ds, rest, c, rfl, hd, hc⟩ | ⟨e, he⟩ := escape_cases s r
        · refine hnext (.escape ds c hd hc) rest rfl ?_
          simp only [List.length_cons, List.length_append] at hn
          omega
        · exact Or.inr ⟨[], r, e, rfl, he⟩
      · exact hnext (.plain b hb) r rfl (by omega)

end YamlLayout.Escape
