import YamlLayout.Proofs.Escape.Decoding
import YamlLayout.Proofs.LineEnding

/-! Escapes in a text whose line feeds got carriage returns before them. It has the same
tokens, the ends of its lines apart, and a first fault of the same kind, as many bytes
further on as line feeds stand before it. -/
namespace YamlLayout

def Error.moved (f : Nat → Nat) : Error → Error
  | .invalidCodePointSequence offset => .invalidCodePointSequence (f offset)
  | .unexpectedEndOfBuffer offset => .unexpectedEndOfBuffer (f offset)
  | .codePointOutOfRange value offset => .codePointOutOfRange value (f offset)
  | e => e

theorem length_insertReturns (c : Bytes) :
    (insertReturns c).length = c.length + c.count lineFeed := by
  induction c with
  | nil => rfl
  | cons b c ih =>
    change ((if b = lineFeed then [carriageReturn, b] else [b]) ++ insertReturns c).length = _
    rw [List.length_append, ih, List.count_cons, List.length_cons]
    split
    · next hb =>
      simp [hb]
      omega
    · next hb =>
      simp [hb]
      omega

namespace Escape
open Utf8

/-- Where an offset of a text lies once carriage returns stand before its line feeds. -/
def carried (c : Bytes) (offset : Nat) : Nat := offset + (c.take offset).count lineFeed

theorem carried_append (a r : Bytes) : carried (a ++ r) a.length = (insertReturns a).length := by
  rw [carried, List.take_left, length_insertReturns]

def lineFeedEscape : Bytes := ofString "\\U0000000A"

theorem lineFeed_not_mem_digits {ds : Bytes} (hd : ∀ b ∈ ds, isDigit b = true) :
    lineFeed ∉ ds := fun h => absurd ((hd _ h).symm.trans isDigit_lineFeed) (by simp)

theorem lineFeed_not_mem_marker {ds : Bytes} (hd : ∀ b ∈ ds, isDigit b = true) :
    lineFeed ∉ marker :: ds := by
  have hm : lineFeed ≠ marker := by decide
  simpa [hm] using lineFeed_not_mem_digits hd

theorem lineFeed_not_mem_lead {r : Bytes} (h : lineFeed ∉ r) : lineFeed ∉ lead :: r := by
  have hl : lineFeed ≠ lead := by decide
  simpa [hl] using h

theorem lineFeed_not_mem_begun {p : Bytes} (h : Begun p) : lineFeed ∉ p := by
  cases h with
  | lead => simp
  | marker ds hl hd => exact lineFeed_not_mem_marker hd

/-- A token among carriage returns: only a line feed gets one. -/
def Token.returned : Token → List Token
  | plain b h =>
    if b = lineFeed then [plain carriageReturn (by decide), plain b h] else [plain b h]
  | escape ds c hd hc => [escape ds c hd hc]

theorem sources_returned_token (t : Token) : sources t.returned = insertReturns t.source := by
  cases t with
  | plain b h =>
    by_cases hb : b = lineFeed
    · simp [Token.returned, Token.source, sources, insertReturns, hb]
    · simp [Token.returned, Token.source, sources, insertReturns, hb]
  | escape ds c hd hc =>
    have h := insertReturns_of_not_mem (lineFeed_not_mem_lead (lineFeed_not_mem_marker hd.upper))
    simp [Token.returned, Token.source, sources, h]

theorem source_of_lineFeed_mem {ds : Bytes} {c : Char} (hd : EightDigits ds)
    (hc : number ds = c.toNat) (h : lineFeed ∈ encode c) :
    lead :: marker :: ds = lineFeedEscape := by
  obtain rfl : c = '\n' := Char.toNat_inj.mp (toNat_of_ascii_mem h (by decide))
  rw [← escapeOf_number hd hc]
  decide

theorem outputs_returned_token {t : Token} (h : t.source ≠ lineFeedEscape) :
    outputs t.returned = insertReturns t.output := by
  cases t with
  | plain b hb =>
    by_cases hf : b = lineFeed
    · simp [Token.returned, Token.output, outputs, insertReturns, hf]
    · simp [Token.returned, Token.output, outputs, insertReturns, hf]
  | escape ds c hd hc =>
    have hm : lineFeed ∉ encode c := fun hm => h (source_of_lineFeed_mem hd hc hm)
    simp [Token.returned, Token.output, outputs, insertReturns_of_not_mem hm]

theorem sources_returned (ts : List Token) :
    sources (ts.flatMap Token.returned) = insertReturns (sources ts) := by
  induction ts with
  | nil => rfl
  | cons t ts ih =>
    rw [List.flatMap_cons, sources_append, sources_returned_token, ih, sources_cons,
      insertReturns_append]

theorem outputs_returned {ts : List Token} (h : ¬ lineFeedEscape <:+: sources ts) :
    outputs (ts.flatMap Token.returned) = insertReturns (outputs ts) := by
  induction ts with
  | nil => rfl
  | cons t ts ih =>
    rw [sources_cons] at h
    have ht : t.source ≠ lineFeedEscape := fun e =>
      h (e ▸ (List.prefix_append t.source (sources ts)).isInfix)
    have hts : ¬ lineFeedEscape <:+: sources ts := fun hi =>
      h (hi.trans (List.suffix_append t.source (sources ts)).isInfix)
    rw [List.flatMap_cons, outputs_append, outputs_returned_token ht, ih hts, outputs_cons,
      insertReturns_append]

/-- A byte that stops an escape may get a carriage return before it, which stops it too. -/
theorem stopped_returned {p : Bytes} {b : UInt8} (hb : continues p b = false) (rest : Bytes) :
    ∃ a r, insertReturns (b :: rest) = a :: r ∧ continues p a = false := by
  by_cases h : b = lineFeed
  · refine ⟨carriageReturn, b :: insertReturns rest, by simp [insertReturns, h], ?_⟩
    unfold continues
    split
    · rfl
    · decide
  · exact ⟨b, insertReturns rest, by simp [insertReturns, h], hb⟩

theorem fault_returned {ts : List Token} {r : Bytes} {e : Error}
    (h : Fault (sources ts).length r e) :
    Fault (insertReturns (sources ts)).length (insertReturns r)
      (e.moved (carried (sources ts ++ lead :: r))) := by
  have hstart := carried_append (sources ts) (lead :: r)
  cases h with
  | cut h =>
    rw [insertReturns_of_not_mem (lineFeed_not_mem_begun h), Error.moved, hstart]
    exact Fault.cut h
  | @offending p b rest h hb =>
    obtain ⟨a, q, he, ha⟩ := stopped_returned hb rest
    have hp : lineFeed ∉ lead :: p := lineFeed_not_mem_lead (lineFeed_not_mem_begun h)
    have hoff := carried_append (sources ts ++ lead :: p) (b :: rest)
    rw [insertReturns_append (sources ts), insertReturns_of_not_mem hp, List.length_append,
      List.length_append, List.length_cons, List.append_assoc, List.cons_append] at hoff
    have hq : (sources ts).length + 1 + p.length = (sources ts).length + (p.length + 1) := by omega
    rw [insertReturns_append, insertReturns_of_not_mem (lineFeed_not_mem_begun h), he, Error.moved,
      hq, hoff, Nat.add_comm p.length 1, ← Nat.add_assoc]
    exact Fault.offending q h ha
  | @outOfRange ds rest hd hn =>
    have hm : lineFeed ∉ marker :: ds := lineFeed_not_mem_marker hd.upper
    rw [← List.cons_append, insertReturns_append, insertReturns_of_not_mem hm, List.cons_append,
      Error.moved, List.cons_append, hstart]
    exact Fault.outOfRange (insertReturns rest) hd hn

theorem decode_insertReturns_ok {t out : Bytes} (h : decode t = .ok out) :
    ∃ out', decode (insertReturns t) = .ok out' ∧
      (¬ lineFeedEscape <:+: t → out' = insertReturns out) := by
  obtain ⟨ts, rfl, rfl⟩ := (decode_eq_ok_iff t out).mp h
  refine ⟨outputs (ts.flatMap Token.returned), ?_, fun hf => outputs_returned hf⟩
  rw [← sources_returned]
  exact decode_sources (ts.flatMap Token.returned)

theorem decode_insertReturns_error {t : Bytes} {e : Error} (h : decode t = .error e) :
    decode (insertReturns t) = .error (e.moved (carried t)) := by
  obtain ⟨ts, r, rfl, hf⟩ := (decode_eq_error_iff t e).mp h
  have hr := fault_returned hf
  have hne : lead ≠ lineFeed := by decide
  have hl : insertReturns (lead :: r) = lead :: insertReturns r := by simp [insertReturns, hne]
  rw [insertReturns_append, hl, ← sources_returned]
  rw [← sources_returned] at hr
  exact decode_fault hr

end Escape
end YamlLayout
