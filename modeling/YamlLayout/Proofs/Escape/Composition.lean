import YamlLayout.Proofs.Escape.Returns

/-! A text cut in two anywhere. What the first part alone comes to says how the whole is read:
a row of tokens is passed over, a fault that the end of the part did not make is final, and
an escape that it cut is taken up again at its backslash. -/
namespace YamlLayout.Escape

theorem Fault.moved {s : Nat} {r : Bytes} {e : Error} (h : Fault s r e) (k : Nat) :
    Fault (k + s) r (e.moved (k + ·)) := by
  cases h with
  | cut h => exact Fault.cut h
  | @offending p b rest h hb =>
    have hoff : k + (s + 1 + p.length) = k + s + 1 + p.length := by omega
    rw [Error.moved, hoff]
    exact Fault.offending rest h hb
  | outOfRange rest hd hn => exact Fault.outOfRange rest hd hn

/-- What a text comes to whose first `size` bytes are read as `out`, from what the rest of it
comes to alone. -/
def resumed (out : Bytes) (size : Nat) : Except Error Bytes → Except Error Bytes
  | .ok more => .ok (out ++ more)
  | .error e => .error (e.moved (size + ·))

theorem decode_sources_append (ts : List Token) (b : Bytes) :
    decode (sources ts ++ b) = resumed (outputs ts) (sources ts).length (decode b) := by
  obtain ⟨us, rfl⟩ | ⟨us, r, e, rfl, he⟩ := tokens_or_fault 0 b
  · rw [← sources_append, decode_sources, decode_sources, outputs_append]
    rfl
  · rw [Nat.zero_add] at he
    have hlater := he.moved (sources ts).length
    rw [← List.length_append, ← sources_append] at hlater
    rw [decode_fault he, ← List.append_assoc, ← sources_append, decode_fault hlater]
    rfl

theorem decode_append_of_ok {a u : Bytes} (h : decode a = .ok u) (b : Bytes) :
    decode (a ++ b) = resumed u a.length (decode b) := by
  obtain ⟨ts, rfl, rfl⟩ := (decode_eq_ok_iff a u).mp h
  exact decode_sources_append ts b

theorem decode_append_of_fault {a : Bytes} {e : Error} {stop : Nat} (h : decode a = .error e)
    (he : faultEnd e = some stop) (b : Bytes) : decode (a ++ b) = .error e := by
  obtain ⟨ts, r, rfl, hf⟩ := (decode_eq_error_iff a e).mp h
  have hlater := fault_later hf he ((sources ts ++ lead :: r).drop stop ++ b)
  rwa [← List.append_assoc, List.take_append_drop] at hlater

theorem decode_append_of_cut {a : Bytes} {o : Nat}
    (h : decode a = .error (.unexpectedEndOfBuffer o)) (b : Bytes) :
    o < a.length ∧ ∃ u, decode (a.take o) = .ok u ∧
      decode (a ++ b) = resumed u o (decode ((a ++ b).drop o)) := by
  obtain ⟨ts, r, rfl, hf⟩ := (decode_eq_error_iff a _).mp h
  cases hf with
  | cut hr =>
    have hlt : (sources ts).length < (sources ts ++ lead :: r).length := by
      rw [List.length_append, List.length_cons]
      omega
    refine ⟨hlt, outputs ts, ?_, ?_⟩
    · rw [List.take_left]
      exact decode_sources ts
    · rw [List.append_assoc, List.drop_left]
      exact decode_sources_append ts (lead :: r ++ b)

/-- Decoding a text from decoding the two parts of it, wherever it is cut. -/
theorem decode_append (a b : Bytes) :
    (∀ u, decode a = .ok u → decode (a ++ b) = resumed u a.length (decode b)) ∧
    (∀ q, decode a = .error (.invalidCodePointSequence q) →
      decode (a ++ b) = .error (.invalidCodePointSequence q)) ∧
    (∀ v s, decode a = .error (.codePointOutOfRange v s) →
      decode (a ++ b) = .error (.codePointOutOfRange v s)) ∧
    (∀ o, decode a = .error (.unexpectedEndOfBuffer o) →
      o < a.length ∧ ∃ u, decode (a.take o) = .ok u ∧
        decode (a ++ b) = resumed u o (decode ((a ++ b).drop o))) := by
  refine ⟨fun u h => decode_append_of_ok h b, fun q h => ?_, fun v s h => ?_,
    fun o h => decode_append_of_cut h b⟩
  · exact decode_append_of_fault h rfl b
  · exact decode_append_of_fault h rfl b

theorem decode_append_midway :
    let full := Utf8.ofString "a\\U0001F60A"
    let bad := Utf8.ofString "b\\u"
    let surrogate := Utf8.ofString "\\U0000DEAD"
    let cut := Utf8.ofString "a\\U0001F6"
    let rest := Utf8.ofString "0A\\U00110000b"
    decode full = .ok (Utf8.ofString "a😊") ∧
    decode bad = .error (.invalidCodePointSequence 2) ∧
    decode surrogate = .error (.codePointOutOfRange 0xDEAD 0) ∧
    decode cut = .error (.unexpectedEndOfBuffer 1) ∧
    decode (full ++ full) = .ok (Utf8.ofString "a😊a😊") ∧
    decode (full ++ bad) = .error (.invalidCodePointSequence 13) ∧
    decode (bad ++ full) = .error (.invalidCodePointSequence 2) ∧
    decode (surrogate ++ bad) = .error (.codePointOutOfRange 0xDEAD 0) ∧
    decode (cut ++ rest) = .error (.codePointOutOfRange 0x110000 11) := by
  intro full bad surrogate cut rest
  have hfull : decode full = .ok (Utf8.ofString "a😊") := by decide +kernel
  have hbad : decode bad = .error (.invalidCodePointSequence 2) := by decide +kernel
  have hsurrogate : decode surrogate = .error (.codePointOutOfRange 0xDEAD 0) := by
    decide +kernel
  have hcut : decode cut = .error (.unexpectedEndOfBuffer 1) := by decide +kernel
  refine ⟨hfull, hbad, hsurrogate, hcut, ?_, ?_, ?_, ?_, ?_⟩
  · rw [(decode_append full full).1 _ hfull, hfull]
    decide +kernel
  · rw [(decode_append full bad).1 _ hfull, hbad]
    decide +kernel
  · exact (decode_append bad full).2.1 2 hbad
  · exact (decode_append surrogate bad).2.2.1 0xDEAD 0 hsurrogate
  · obtain ⟨-, u, -, hwhole⟩ := (decode_append cut rest).2.2.2 1 hcut
    have hagain : decode ((cut ++ rest).drop 1) = .error (.codePointOutOfRange 0x110000 10) := by
      decide +kernel
    rw [hwhole, hagain]
    rfl

end YamlLayout.Escape
