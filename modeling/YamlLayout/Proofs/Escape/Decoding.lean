import YamlLayout.Proofs.Escape.Grammar

/-! The byte-wise scanner and the reading by tokens agree: both pass over a token with
its output, and both stop at the first fault with the same error. -/
namespace YamlLayout.Escape
open Utf8

theorem scan_silent {p : Nat} {st next : State} {b : UInt8} (h : step p st b = .ok ([], next))
    (r : Bytes) : scan p st (b :: r) = scan (p + 1) next r := by
  rw [scan, h]
  cases hs : scan (p + 1) next r <;> simp [Except.map, hs]

theorem scan_stop {p : Nat} {st : State} {b : UInt8} {e : Error} (h : step p st b = .error e)
    (r : Bytes) : scan p st (b :: r) = .error e := by
  rw [scan, h]

/-- The state once `count` digits have written `n`. -/
def gathering (s n count : Nat) : State :=
  if count = digitCount then .complete s (.ofNat n) else .digits s (.ofNat n) count

theorem gathering_of_lt {count : Nat} (h : count < digitCount) (s n : Nat) :
    gathering s n count = .digits s (.ofNat n) count := by
  rw [gathering, if_neg (Nat.ne_of_lt h)]

theorem scan_afterMarker (p s : Nat) (r : Bytes) :
    scan p (.afterMarker s) r = scan p (gathering s 0 0) r := by
  cases r <;> rfl

theorem step_gathering {count n : Nat} (h : count < digitCount) (hn : n < 16 ^ count)
    {b : UInt8} (hb : isDigit b = true) (p s : Nat) :
    step p (gathering s n count) b =
      .ok ([], gathering s (16 * n + upperDigits.idxOf b) (count + 1)) := by
  have hle : 16 ^ count ≤ 16 ^ 7 := Nat.pow_le_pow_right (by omega) (Nat.le_of_lt_succ h)
  have hv := shift_or_digit (n := n) (by omega) (idxOf_lt hb)
  rw [gathering_of_lt h]
  simp only [step, collect, hexValue?_eq, hb, if_true, hv]
  unfold gathering
  split <;> rfl

theorem step_gathering_stop {count : Nat} (h : count < digitCount) {b : UInt8}
    (hb : isDigit b = false) (p s n : Nat) :
    step p (gathering s n count) b = .error (.invalidCodePointSequence p) := by
  rw [gathering_of_lt h]
  simp [step, collect, hexValue?_eq, hb, Except.map]

theorem scan_gathering {ds : Bytes} (hd : ∀ b ∈ ds, isDigit b = true) {k n : Nat}
    (hl : k + ds.length ≤ digitCount) (hn : n < 16 ^ k) (p s : Nat) (r : Bytes) :
    scan p (gathering s n k) (ds ++ r) =
      scan (p + ds.length) (gathering s (numberFrom n ds) (k + ds.length)) r := by
  induction ds generalizing k n p with
  | nil => rfl
  | cons b ds ih =>
    rw [List.length_cons] at hl
    have hb := hd b List.mem_cons_self
    have hlt : 16 * n + upperDigits.idxOf b < 16 ^ (k + 1) := by
      have := idxOf_lt hb
      rw [Nat.pow_succ]
      omega
    have hr := ih (fun a ha => hd a (List.mem_cons_of_mem b ha)) (k := k + 1)
      (by omega) hlt (p + 1)
    have hp : p + 1 + ds.length = p + (ds.length + 1) := by omega
    have hk : k + 1 + ds.length = k + (ds.length + 1) := by omega
    rw [List.cons_append, scan_silent (step_gathering (by omega) hn hb p s), hr, numberFrom_cons,
      List.length_cons, hp, hk]

theorem scan_lead (s : Nat) (r : Bytes) :
    scan s .copy (lead :: r) = scan (s + 1) (.afterLead s) r :=
  scan_silent rfl r

theorem scan_marker (s : Nat) {ds : Bytes} (hd : ∀ b ∈ ds, isDigit b = true)
    (hl : ds.length ≤ digitCount) (r : Bytes) :
    scan s .copy (lead :: marker :: (ds ++ r)) =
      scan (s + 2 + ds.length) (gathering s (number ds) ds.length) r := by
  have h := scan_gathering hd (k := 0) (n := 0) (by omega) (by omega) (s + 2) s r
  have hm : step (s + 1) (.afterLead s) marker = .ok ([], .afterMarker s) := rfl
  rw [scan_lead, scan_silent hm, scan_afterMarker, h, Nat.zero_add]
  rfl

/-- A complete escape is written whether a byte or the end comes next. -/
theorem scan_complete (p s : Nat) (v : UInt32) (r : Bytes) :
    scan p (.complete s v) r =
      match character s v with
      | .ok out => (scan p .copy r).map (out ++ ·)
      | .error e => .error e := by
  cases hc : character s v with
  | error e =>
    cases r with
    | nil => exact hc
    | cons b r => exact scan_stop (by simp [step, hc, Except.map]) r
  | ok out =>
    cases r with
    | nil => simp [scan, finish, hc, Except.map]
    | cons b r =>
      have hstep : step p (.complete s v) b =
          .ok (out ++ (copyStep p b).1, (copyStep p b).2) := by simp [step, hc, Except.map]
      simp only [scan, hstep]
      have hcopy : step p .copy b = .ok ((copyStep p b).1, (copyStep p b).2) := rfl
      simp only [hcopy]
      cases scan (p + 1) (copyStep p b).2 r <;> simp [Except.map]

theorem toNat_ofNat_number {ds : Bytes} (hd : EightDigits ds) :
    (UInt32.ofNat (number ds)).toNat = number ds := by
  have h := numberFrom_lt (k := 0) (n := 0) (by omega) hd.upper
  rw [hd.length_eq] at h
  rw [UInt32.toNat_ofNat']
  exact Nat.mod_eq_of_lt h

theorem scan_token (s : Nat) (t : Token) (r : Bytes) :
    scan s .copy (t.source ++ r) =
      (scan (s + t.source.length) .copy r).map (t.output ++ ·) := by
  cases t with
  | plain b h =>
    have hstep : step s .copy b = .ok ([b], .copy) := by simp [step, copyStep, h]
    change scan s .copy (b :: r) = (scan (s + 1) .copy r).map ([b] ++ ·)
    rw [scan, hstep]
  | escape ds c hd hc =>
    have h := scan_marker s hd.upper (Nat.le_of_eq hd.length_eq) r
    have hout : character s (.ofNat (number ds)) = .ok (encode c) := by
      rw [character, toNat_ofNat_number hd, hc, scalar?_toNat]
    have hp : s + 2 + ds.length = s + (ds.length + 1 + 1) := by omega
    change scan s .copy (lead :: marker :: (ds ++ r)) = _
    rw [h, gathering, if_pos hd.length_eq, scan_complete, hout, hp]
    rfl

theorem scan_fault {s : Nat} {r : Bytes} {e : Error} (h : Fault s r e) :
    scan s .copy (lead :: r) = .error e := by
  cases h with
  | cut h =>
    cases h with
    | lead => rfl
    | marker ds hl hd =>
      have h := scan_marker s hd (Nat.le_of_lt hl) []
      rw [List.append_nil] at h
      rw [h, gathering_of_lt hl]
      rfl
  | @offending p b rest h hb =>
    cases h with
    | lead =>
      have hb : b ≠ marker := by simpa [continues] using hb
      exact (scan_lead s (b :: rest)).trans (scan_stop (by simp [step, hb]) rest)
    | marker ds hl hd =>
      have hb : isDigit b = false := by simpa [continues] using hb
      have hp : s + 1 + (ds.length + 1) = s + 2 + ds.length := by omega
      rw [List.cons_append, scan_marker s hd (Nat.le_of_lt hl),
        scan_stop (step_gathering_stop hl hb _ s _), List.length_cons, hp]
  | @outOfRange ds rest hd hn =>
    have hout : character s (.ofNat (number ds)) =
        .error (.codePointOutOfRange (.ofNat (number ds)) s) := by
      simp [character, toNat_ofNat_number hd, hn]
    rw [scan_marker s hd.upper (Nat.le_of_eq hd.length_eq), gathering, if_pos hd.length_eq,
      scan_complete, hout]

theorem scan_sources (s : Nat) (ts : List Token) (r : Bytes) :
    scan s .copy (sources ts ++ r) =
      (scan (s + (sources ts).length) .copy r).map (outputs ts ++ ·) := by
  induction ts generalizing s with
  | nil =>
    change scan s .copy r = (scan s .copy r).map ([] ++ ·)
    cases scan s .copy r <;> rfl
  | cons t ts ih =>
    rw [sources_cons, List.append_assoc, scan_token, ih, outputs_cons, List.length_append,
      ← Nat.add_assoc]
    cases scan (s + t.source.length + (sources ts).length) .copy r <;> simp [Except.map]

theorem decode_sources (ts : List Token) : decode (sources ts) = .ok (outputs ts) := by
  have h := scan_sources 0 ts []
  rw [List.append_nil] at h
  rw [decode, h]
  simp [scan, finish, Except.map]

theorem decode_fault {ts : List Token} {r : Bytes} {e : Error}
    (h : Fault (sources ts).length r e) : decode (sources ts ++ lead :: r) = .error e := by
  rw [decode, scan_sources, Nat.zero_add, scan_fault h]
  rfl

theorem decode_eq_ok_iff (c out : Bytes) :
    decode c = .ok out ↔ ∃ ts, sources ts = c ∧ outputs ts = out := by
  constructor
  · intro h
    obtain ⟨ts, rfl⟩ | ⟨ts, r, e, rfl, he⟩ := tokens_or_fault 0 c
    · exact ⟨ts, rfl, Except.ok.inj ((decode_sources ts).symm.trans h)⟩
    · rw [Nat.zero_add] at he
      exact absurd (h.symm.trans (decode_fault he)) (by simp)
  · rintro ⟨ts, rfl, rfl⟩
    exact decode_sources ts

theorem decode_eq_error_iff (c : Bytes) (e : Error) :
    decode c = .error e ↔
      ∃ ts r, c = sources ts ++ lead :: r ∧ Fault (sources ts).length r e := by
  constructor
  · intro h
    obtain ⟨ts, rfl⟩ | ⟨ts, r, f, rfl, hf⟩ := tokens_or_fault 0 c
    · exact absurd (h.symm.trans (decode_sources ts)) (by simp)
    · rw [Nat.zero_add] at hf
      obtain rfl := Except.error.inj (h.symm.trans (decode_fault hf))
      exact ⟨ts, r, rfl, hf⟩
  · rintro ⟨ts, r, rfl, he⟩
    exact decode_fault he

theorem digitRun_full {ds : Bytes} (hd : EightDigits ds) (rest : Bytes) :
    digitRun (ds ++ rest) = ds := by
  rw [digitRun, ← hd.length_eq, List.take_left]
  exact List.takeWhile_eq_self_iff.mpr hd.upper

theorem digitRun_short {ds : Bytes} (hd : ∀ b ∈ ds, isDigit b = true)
    (hl : ds.length < digitCount) {r : Bytes} (hr : ∀ b ∈ r.head?, isDigit b = false) :
    digitRun (ds ++ r) = ds := by
  have hz : (r.take (digitCount - ds.length)).takeWhile isDigit = [] := by
    obtain ⟨k, hk⟩ : ∃ k, digitCount - ds.length = k + 1 := ⟨digitCount - ds.length - 1, by omega⟩
    rw [hk]
    cases r with
    | nil => rfl
    | cons b r => simp [hr b rfl]
  rw [digitRun, List.take_append, List.take_of_length_le (Nat.le_of_lt hl),
    List.takeWhile_append_of_pos hd, hz, List.append_nil]

theorem escapeAt_token {ds : Bytes} {c : Char} (hd : EightDigits ds) (hc : number ds = c.toNat)
    (s : Nat) (rest : Bytes) : escapeAt s (marker :: (ds ++ rest)) = .ok c := by
  simp [escapeAt, digitRun_full hd, hd.length_eq, hc, scalar?_toNat]

theorem escapeAt_fault {s : Nat} {r : Bytes} {e : Error} (h : Fault s r e) :
    escapeAt s r = .error e := by
  cases h with
  | cut h =>
    cases h with
    | lead => rfl
    | marker ds hl hd =>
      have ht := digitRun_short hd hl (r := []) (by simp)
      rw [List.append_nil] at ht
      simp [escapeAt, ht, Nat.ne_of_lt hl]
  | @offending p b rest h hb =>
    cases h with
    | lead =>
      have hb : b ≠ marker := by simpa [continues] using hb
      simp [escapeAt, hb]
    | marker ds hl hd =>
      have hb : isDigit b = false := by simpa [continues] using hb
      have ht := digitRun_short hd hl (r := b :: rest) (by simpa using hb)
      have hoff : s + 1 + (marker :: ds).length = s + 2 + ds.length := by
        rw [List.length_cons]
        omega
      simp [escapeAt, ht, Nat.ne_of_lt hl, ← hoff]
  | outOfRange rest hd hn => simp [escapeAt, digitRun_full hd, hd.length_eq, hn]

theorem read_token (s : Nat) (t : Token) (r : Bytes) :
    read s (t.source ++ r) = (read (s + t.source.length) r).map (t.output ++ ·) := by
  cases t with
  | plain b h => exact read_plain h s r
  | escape ds c hd hc =>
    have hdrop : (marker :: (ds ++ r)).drop 9 = r := List.drop_left' hd.length_eq
    change read s (lead :: marker :: (ds ++ r)) =
      (read (s + (ds.length + 1 + 1)) r).map (encode c ++ ·)
    rw [read_lead, escapeAt_token hd hc, hdrop, hd.length_eq]
    rfl

theorem read_sources (s : Nat) (ts : List Token) (r : Bytes) :
    read s (sources ts ++ r) =
      (read (s + (sources ts).length) r).map (outputs ts ++ ·) := by
  induction ts generalizing s with
  | nil =>
    change read s r = (read s r).map ([] ++ ·)
    cases read s r <;> rfl
  | cons t ts ih =>
    rw [sources_cons, List.append_assoc, read_token, ih, outputs_cons, List.length_append,
      ← Nat.add_assoc]
    cases read (s + t.source.length + (sources ts).length) r <;> simp [Except.map]

theorem decode_eq_read (c : Bytes) : decode c = read 0 c := by
  obtain ⟨ts, rfl⟩ | ⟨ts, r, e, rfl, he⟩ := tokens_or_fault 0 c
  · have h := read_sources 0 ts []
    rw [List.append_nil] at h
    rw [decode_sources, h]
    simp [read, Except.map]
  · rw [Nat.zero_add] at he
    rw [decode_fault he, read_sources, Nat.zero_add, read_lead, escapeAt_fault he]
    rfl

theorem scalar?_eq_none_iff (n : Nat) :
    scalar? n = none ↔ 0xD800 ≤ n ∧ n ≤ 0xDFFF ∨ 0x10FFFF < n := by
  have hv : n.isValidChar ↔ n < 0xD800 ∨ 0xDFFF < n ∧ n < 0x110000 := Iff.rfl
  unfold scalar?
  split
  · next h =>
    have := hv.mp h
    simp only [reduceCtorEq, false_iff]
    omega
  · next h =>
    have := mt hv.mpr h
    simp only [true_iff]
    omega

theorem eq_ofNat_number_iff {ds : Bytes} (hd : EightDigits ds) (v : UInt32) :
    v = .ofNat (number ds) ↔ v.toNat = number ds := by
  constructor
  · rintro rfl
    exact toNat_ofNat_number hd
  · intro h
    exact UInt32.toNat_inj.mp (h.trans (toNat_ofNat_number hd).symm)

theorem escapeDigits_number {ds : Bytes} (hd : EightDigits ds) :
    ofString (escapeDigits (.ofNat (number ds))) = ds := by
  have hne : ds ≠ [] := by
    rintro rfl
    exact absurd hd.length_eq (by decide)
  have h := encodeAll_upperHex hne hd.upper
  rw [hd.length_eq] at h
  rw [ofString, escapeDigits, String.toList_ofList, toNat_ofNat_number hd]
  exact h

def escapeOf (c : Char) : Bytes := lead :: marker :: ofString (escapeDigits c.val)

theorem escapeOf_number {ds : Bytes} {c : Char} (hd : EightDigits ds)
    (hc : number ds = c.toNat) : escapeOf c = lead :: marker :: ds := by
  have hv : UInt32.ofNat (number ds) = c.val := hc ▸ UInt32.ofNat_toNat
  rw [escapeOf, ← hv, escapeDigits_number hd]

theorem exists_eightDigits (c : Char) : ∃ ds, EightDigits ds ∧ number ds = c.toNat := by
  have hlt : c.toNat < 16 ^ digitCount := Nat.lt_trans (toNat_lt c) (by decide)
  obtain ⟨ds, hl, hd, hn⟩ := exists_digits hlt
  exact ⟨ds, ⟨hl, hd⟩, hn⟩

theorem escapeOf_inj {c d : Char} : escapeOf c = escapeOf d ↔ c = d := by
  obtain ⟨ds, hds, hc⟩ := exists_eightDigits c
  obtain ⟨es, hes, hd⟩ := exists_eightDigits d
  constructor
  · intro h
    rw [escapeOf_number hds hc, escapeOf_number hes hd] at h
    obtain rfl := (List.cons.inj (List.cons.inj h).2).2
    exact Char.toNat_inj.mp (hc.symm.trans hd)
  · rintro rfl
    rfl

/-- Where the last byte of a fault ends, if the end of the text is not the fault. -/
def faultEnd : Error → Option Nat
  | .invalidCodePointSequence q => some (q + 1)
  | .codePointOutOfRange _ s => some (s + 10)
  | _ => none

theorem fault_later {ts : List Token} {r : Bytes} {e : Error} {stop : Nat}
    (h : Fault (sources ts).length r e) (he : faultEnd e = some stop) (later : Bytes) :
    decode ((sources ts ++ lead :: r).take stop ++ later) = .error e := by
  cases h with
  | cut h => simp [faultEnd] at he
  | @offending p b rest h hb =>
    obtain rfl := Option.some.inj he
    have hsplit (r : Bytes) : sources ts ++ lead :: (p ++ b :: r) =
        (sources ts ++ lead :: (p ++ [b])) ++ r := by simp
    have hlen : (sources ts ++ lead :: (p ++ [b])).length =
        (sources ts).length + 1 + p.length + 1 := by
      simp
      omega
    rw [hsplit, List.take_left' hlen, ← hsplit]
    exact decode_fault (Fault.offending later h hb)
  | @outOfRange ds rest hd hn =>
    obtain rfl := Option.some.inj he
    have hsplit (r : Bytes) : sources ts ++ lead :: marker :: (ds ++ r) =
        (sources ts ++ lead :: marker :: ds) ++ r := by simp
    have hlen : (sources ts ++ lead :: marker :: ds).length = (sources ts).length + 10 := by
      simp [hd.length_eq, digitCount]
    rw [hsplit, List.take_left' hlen, ← hsplit]
    exact decode_fault (Fault.outOfRange later hd hn)

/-- A text decodes just when it is a row of tokens, to what they stand for. Otherwise the
first fault alone decides the error: the end of the text inside an escape, the first
byte that no escape has in its place, or eight digits that write no character. -/
theorem decode_first_fault (c : Bytes) :
    decode c = read 0 c ∧
    (∀ out, decode c = .ok out ↔ ∃ ts, sources ts = c ∧ outputs ts = out) ∧
    (∀ s, decode c = .error (.unexpectedEndOfBuffer s) ↔
      ∃ ts r, c = sources ts ++ lead :: r ∧ s = (sources ts).length ∧ Begun r) ∧
    (∀ q, decode c = .error (.invalidCodePointSequence q) ↔
      ∃ ts p b rest, c = sources ts ++ lead :: (p ++ b :: rest) ∧
        q = (sources ts).length + 1 + p.length ∧ Begun p ∧ continues p b = false) ∧
    (∀ v s, decode c = .error (.codePointOutOfRange v s) ↔
      ∃ ts ds rest, c = sources ts ++ lead :: marker :: (ds ++ rest) ∧
        s = (sources ts).length ∧ EightDigits ds ∧ v.toNat = number ds ∧
        (0xD800 ≤ number ds ∧ number ds ≤ 0xDFFF ∨ 0x10FFFF < number ds)) ∧
    (∀ v s, decode c = .error (.codePointOutOfRange v s) →
      (c.drop (s + 2)).take digitCount = ofString (escapeDigits v)) ∧
    (∀ e, decode c = .error e → (∃ s, e = .unexpectedEndOfBuffer s) ∨
      (∃ q, e = .invalidCodePointSequence q) ∨ ∃ v s, e = .codePointOutOfRange v s) ∧
    (∀ e stop later, decode c = .error e → faultEnd e = some stop →
      decode (c.take stop ++ later) = .error e) := by
  refine ⟨decode_eq_read c, decode_eq_ok_iff c, fun s => ?_, fun q => ?_, fun v s => ?_,
    fun v s h => ?_, fun e h => ?_, fun e stop later h he => ?_⟩
  · rw [decode_eq_error_iff]
    constructor
    · rintro ⟨ts, r, hc, hf⟩
      cases hf with
      | cut h => exact ⟨ts, r, hc, rfl, h⟩
    · rintro ⟨ts, r, hc, rfl, h⟩
      exact ⟨ts, r, hc, Fault.cut h⟩
  · rw [decode_eq_error_iff]
    constructor
    · rintro ⟨ts, r, hc, hf⟩
      cases hf with
      | offending rest h hb => exact ⟨ts, _, _, rest, hc, rfl, h, hb⟩
    · rintro ⟨ts, p, b, rest, hc, rfl, h, hb⟩
      exact ⟨ts, _, hc, Fault.offending rest h hb⟩
  · rw [decode_eq_error_iff]
    constructor
    · rintro ⟨ts, r, hc, hf⟩
      cases hf with
      | outOfRange rest hd hn =>
        exact ⟨ts, _, rest, hc, rfl, hd, toNat_ofNat_number hd, (scalar?_eq_none_iff _).mp hn⟩
    · rintro ⟨ts, ds, rest, hc, rfl, hd, hv, hn⟩
      obtain rfl := (eq_ofNat_number_iff hd v).mpr hv
      exact ⟨ts, _, hc, Fault.outOfRange rest hd ((scalar?_eq_none_iff _).mpr hn)⟩
  · obtain ⟨ts, r, rfl, hf⟩ := (decode_eq_error_iff c _).mp h
    cases hf with
    | @outOfRange ds rest hd hn =>
      have hsplit : sources ts ++ lead :: marker :: (ds ++ rest) =
          (sources ts ++ [lead, marker]) ++ (ds ++ rest) := by simp
      have hlen : (sources ts ++ [lead, marker]).length = (sources ts).length + 2 := by simp
      rw [hsplit, List.drop_left' hlen, escapeDigits_number hd, ← hd.length_eq, List.take_left]
  · obtain ⟨ts, r, -, hf⟩ := (decode_eq_error_iff c e).mp h
    cases hf with
    | cut h => exact Or.inl ⟨_, rfl⟩
    | offending rest h hb => exact Or.inr (Or.inl ⟨_, rfl⟩)
    | outOfRange rest hd hn => exact Or.inr (Or.inr ⟨_, _, rfl⟩)
  · obtain ⟨ts, r, rfl, hf⟩ := (decode_eq_error_iff c e).mp h
    exact fault_later hf he later

end YamlLayout.Escape
