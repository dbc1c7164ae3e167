import YamlLayout.Proofs.Escape.Composition

/-! The scanner turn by turn. What its state says about the bytes behind it holds at the start and
after each turn: where the open escape begins, how many digits it has, which number they write, and
that all before it is decoded. So its number always has room for another digit, and the loop
ends, at the end of the text or at the fault that decoding reports. -/
namespace YamlLayout.Escape
open Utf8

/-- The number to which the next digit would be added. -/
def State.gathered : State → UInt32
  | .digits _ value _ => value
  | _ => 0

theorem hexValue?_eq_some_iff {b : UInt8} {digit : UInt32} :
    hexValue? b = some digit ↔ isDigit b = true ∧ .ofNat (upperDigits.idxOf b) = digit := by
  rw [hexValue?_eq]
  cases isDigit b <;> simp

def written (buf : Bytes) (s count : Nat) : Bytes := (buf.drop (s + 2)).take count

/-- At offset `s` stand a backslash, the marker and `count` digits, and these write `value`. -/
structure Gathered (buf : Bytes) (s count : Nat) (value : UInt32) : Prop where
  lead_eq : buf[s]? = some lead
  marker_eq : buf[s + 1]? = some marker
  length_eq : (written buf s count).length = count
  upper : ∀ b ∈ written buf s count, isDigit b = true
  value_eq : value.toNat = number (written buf s count)

namespace Gathered
variable {buf : Bytes} {s count : Nat} {value : UInt32}

theorem zero (hl : buf[s]? = some lead) (hm : buf[s + 1]? = some marker) : Gathered buf s 0 0 :=
  ⟨hl, hm, rfl, by simp [written], rfl⟩

theorem value_lt (h : Gathered buf s count value) : value.toNat < 16 ^ count := by
  have hlt := numberFrom_lt (k := 0) (n := 0) (by omega) h.upper
  rw [h.length_eq, Nat.zero_add] at hlt
  rw [h.value_eq]
  exact hlt

theorem written_succ {b : UInt8} (hb : buf[s + 2 + count]? = some b) :
    written buf s (count + 1) = written buf s count ++ [b] := by
  rw [written, List.take_add_one, List.getElem?_drop, hb]
  rfl

theorem next (h : Gathered buf s count value) (hc : count < digitCount) {b : UInt8}
    {digit : UInt32} (hb : buf[s + 2 + count]? = some b) (hd : hexValue? b = some digit) :
    Gathered buf s (count + 1) (value <<< 4 ||| digit) := by
  obtain ⟨hdigit, rfl⟩ := hexValue?_eq_some_iff.mp hd
  have hlast := written_succ hb
  have hle : 16 ^ count ≤ 16 ^ 7 := Nat.pow_le_pow_right (by omega) (Nat.le_of_lt_succ hc)
  have hlt := h.value_lt
  have hidx := idxOf_lt hdigit
  have hor := shift_or_digit (n := value.toNat) (by omega) hidx
  rw [UInt32.ofNat_toNat] at hor
  refine ⟨h.lead_eq, h.marker_eq, ?_, fun a ha => ?_, ?_⟩
  · rw [hlast, List.length_append, h.length_eq]
    rfl
  · rw [hlast] at ha
    cases List.mem_append.mp ha with
    | inl ha => exact h.upper a ha
    | inr ha => exact List.mem_singleton.mp ha ▸ hdigit
  · rw [hor, hlast, number_append, ← h.value_eq, UInt32.toNat_ofNat']
    exact Nat.mod_eq_of_lt (by omega)

theorem take_eq (h : Gathered buf s count value) :
    buf.take (s + 2 + count) = buf.take s ++ lead :: marker :: written buf s count := by
  obtain ⟨hs, hlead⟩ := List.getElem?_eq_some_iff.mp h.lead_eq
  obtain ⟨hs', hmarker⟩ := List.getElem?_eq_some_iff.mp h.marker_eq
  rw [Nat.add_assoc, List.take_add, Nat.add_comm 2 count, List.drop_eq_getElem_cons hs,
    List.drop_eq_getElem_cons hs', hlead, hmarker]
  rfl

theorem decode_take (h : Gathered buf s digitCount value) {out more : Bytes}
    (hout : decode (buf.take s) = .ok out) (hc : character s value = .ok more) :
    decode (buf.take (s + 2 + digitCount)) = .ok (out ++ more) := by
  have hd : EightDigits (written buf s digitCount) := ⟨h.length_eq, h.upper⟩
  unfold character at hc
  split at hc
  · next c hscalar =>
    obtain rfl := Except.ok.inj hc
    have hn : number (written buf s digitCount) = c.toNat :=
      h.value_eq.symm.trans (toNat_of_scalar? hscalar).symm
    have htoken : decode (lead :: marker :: written buf s digitCount) = .ok (encode c) := by
      simpa [sources, outputs, Token.source, Token.output] using
        decode_sources [.escape (written buf s digitCount) c hd hn]
    rw [h.take_eq, decode_append_of_ok hout, htoken]
    rfl
  · exact absurd hc (by simp)

end Gathered

theorem toNat_shift {v : UInt32} (h : v.toNat < 2 ^ 28) : (v <<< 4).toNat = 16 * v.toNat := by
  have hor := shift_or_digit (d := 0) h (by omega)
  have hzero : v <<< 4 ||| UInt32.ofNat 0 = v <<< 4 := UInt32.or_zero
  rw [UInt32.ofNat_toNat, hzero, Nat.add_zero] at hor
  rw [hor, UInt32.toNat_ofNat']
  exact Nat.mod_eq_of_lt (by omega)

/-- A step that, once a complete escape is written, calls itself on the same byte, as long as it
has calls left. -/
def stepWithin (position : Nat) (b : UInt8) :
    Nat → State → Option (Except Error (Bytes × State))
  | 0, .complete start value =>
    match character start value with
    | .error e => some (.error e)
    | .ok _ => none
  | calls + 1, .complete start value =>
    match character start value with
    | .error e => some (.error e)
    | .ok out =>
      (stepWithin position b calls .copy).map (Except.map fun (more, next) => (out ++ more, next))
  | _, state => some (step position state b)

theorem stepWithin_one (position : Nat) (state : State) (b : UInt8) :
    stepWithin position b 1 state = some (step position state b) := by
  cases state with
  | complete start value =>
    simp only [stepWithin, step]
    cases character start value <;> rfl
  | copy => rfl
  | afterLead start => rfl
  | afterMarker start => rfl
  | digits start value count => rfl

structure Head where
  position : Nat
  state : State
  out : Bytes
  deriving DecidableEq

namespace Head
variable {buf : Bytes} {n : Nat} {h h' : Head} {b : UInt8}

def start : Head := ⟨0, .copy, []⟩

def turn (h : Head) (b : UInt8) : Except Error Head :=
  (step h.position h.state b).map fun (more, next) => ⟨h.position + 1, next, h.out ++ more⟩

def after (buf : Bytes) : Nat → Option Head
  | 0 => some start
  | n + 1 => (after buf n).bind fun h => buf[h.position]?.bind fun b => (h.turn b).toOption

/-- What the state at a head says about the bytes already read. -/
def Sound (buf : Bytes) (h : Head) : Prop :=
  match h.state with
  | .copy => decode (buf.take h.position) = .ok h.out
  | .afterLead s =>
    h.position = s + 1 ∧ buf[s]? = some lead ∧ decode (buf.take s) = .ok h.out
  | .afterMarker s =>
    h.position = s + 2 ∧ buf[s]? = some lead ∧ buf[s + 1]? = some marker ∧
      decode (buf.take s) = .ok h.out
  | .digits s value count =>
    1 ≤ count ∧ count ≤ 7 ∧ h.position = s + 2 + count ∧ Gathered buf s count value ∧
      value.toNat < 16 ^ count ∧ decode (buf.take s) = .ok h.out
  | .complete s value =>
    h.position = s + 10 ∧ Gathered buf s 8 value ∧ number (written buf s 8) < 2 ^ 32 ∧
      decode (buf.take s) = .ok h.out

theorem turn_eq_ok_iff : h.turn b = .ok h' ↔ ∃ more next,
    step h.position h.state b = .ok (more, next) ∧
      h' = ⟨h.position + 1, next, h.out ++ more⟩ := by
  unfold turn
  cases step h.position h.state b with
  | error e => simp [Except.map]
  | ok p =>
    obtain ⟨more, next⟩ := p
    simp [Except.map, eq_comm]

theorem turn_eq_error_iff {e : Error} :
    h.turn b = .error e ↔ step h.position h.state b = .error e := by
  unfold turn
  cases step h.position h.state b <;> simp [Except.map]

theorem after_succ_iff : after buf (n + 1) = some h' ↔
    ∃ h b, after buf n = some h ∧ buf[h.position]? = some b ∧ h.turn b = .ok h' := by
  have hok (r : Except Error Head) : r.toOption = some h' ↔ r = .ok h' := by
    cases r <;> simp [Except.toOption]
  simp only [after, Option.bind_eq_some_iff, hok]
  constructor
  · rintro ⟨h, hn, b, hb, ht⟩
    exact ⟨h, b, hn, hb, ht⟩
  · rintro ⟨h, b, hn, hb, ht⟩
    exact ⟨h, hn, b, hb, ht⟩

theorem after_later (hn : after buf n = none) {m : Nat} (hm : n ≤ m) : after buf m = none := by
  induction m, hm using Nat.le_induction with
  | base => exact hn
  | succ m hm ih => rw [after, ih, Option.bind_none]

theorem position_of_after (hn : after buf n = some h) : h.position = n ∧ n ≤ buf.length := by
  induction n generalizing h with
  | zero =>
    obtain rfl := Option.some.inj hn
    exact ⟨rfl, Nat.zero_le _⟩
  | succ n ih =>
    obtain ⟨h, b, hbefore, hb, ht⟩ := after_succ_iff.mp hn
    obtain ⟨more, next, -, rfl⟩ := turn_eq_ok_iff.mp ht
    obtain ⟨rfl, -⟩ := ih hbefore
    exact ⟨rfl, (List.getElem?_eq_some_iff.mp hb).1⟩

theorem sound_copyStep {p : Nat} {out : Bytes} (hout : decode (buf.take p) = .ok out)
    (hb : buf[p]? = some b) :
    Sound buf ⟨p + 1, (copyStep p b).2, out ++ (copyStep p b).1⟩ := by
  by_cases hl : b = lead
  · rw [copyStep, if_pos hl, List.append_nil]
    exact ⟨rfl, hl ▸ hb, hout⟩
  · have hbyte : decode [b] = .ok [b] := decode_sources [.plain b hl]
    rw [copyStep, if_neg hl]
    change decode (buf.take (p + 1)) = .ok (out ++ [b])
    rw [List.take_add_one, hb, Option.toList_some, decode_append_of_ok hout, hbyte]
    rfl

theorem silent_eq_ok {c : Except Error State} {more : Bytes} {next : State}
    (hc : c.map ([], ·) = .ok (more, next)) : c = .ok next ∧ more = [] := by
  cases c with
  | error e => exact absurd hc (by simp [Except.map])
  | ok st =>
    obtain ⟨rfl, rfl⟩ := Prod.mk.inj (Except.ok.inj hc)
    exact ⟨rfl, rfl⟩

theorem sound_collect {s count : Nat} {value : UInt32} {out : Bytes} {next : State}
    (hg : Gathered buf s count value) (hc : count < digitCount)
    (hout : decode (buf.take s) = .ok out) (hb : buf[s + 2 + count]? = some b)
    (hnext : collect (s + 2 + count) s value count b = .ok next) :
    Sound buf ⟨s + 2 + count + 1, next, out⟩ := by
  unfold collect at hnext
  split at hnext
  · exact absurd hnext (by simp)
  · next digit hd =>
    have hmore := hg.next hc hb hd
    have hlt := hmore.value_lt
    split at hnext
    · next heq =>
      obtain rfl := Except.ok.inj hnext
      obtain rfl : count = 7 := Nat.succ.inj heq
      exact ⟨rfl, hmore, hmore.value_eq ▸ UInt32.toNat_lt _, hout⟩
    · next hne =>
      obtain rfl := Except.ok.inj hnext
      have hle : count + 1 ≤ 7 := Nat.le_of_lt_succ (Nat.lt_of_le_of_ne hc hne)
      exact ⟨Nat.succ_pos count, hle, rfl, hmore, hlt, hout⟩

theorem Sound.turn (hs : h.Sound buf) (hb : buf[h.position]? = some b)
    (ht : h.turn b = .ok h') : h'.Sound buf := by
  obtain ⟨more, next, hstep, rfl⟩ := turn_eq_ok_iff.mp ht
  obtain ⟨p, state, out⟩ := h
  cases state with
  | copy =>
    obtain ⟨rfl, rfl⟩ := Prod.mk.inj (Except.ok.inj hstep)
    exact sound_copyStep hs hb
  | afterLead s =>
    obtain ⟨rfl, hlead, hout⟩ := hs
    by_cases hm : b = marker
    · simp only [step, if_pos hm, Except.ok.injEq, Prod.mk.injEq] at hstep
      obtain ⟨rfl, rfl⟩ := hstep
      rw [List.append_nil]
      exact ⟨rfl, hlead, hm ▸ hb, hout⟩
    · simp [step, if_neg hm] at hstep
  | afterMarker s =>
    obtain ⟨rfl, hlead, hmarker, hout⟩ := hs
    obtain ⟨hnext, rfl⟩ := silent_eq_ok hstep
    rw [List.append_nil]
    exact sound_collect (.zero hlead hmarker) (by decide) hout hb hnext
  | digits s value count =>
    obtain ⟨-, hle, rfl, hg, -, hout⟩ := hs
    obtain ⟨hnext, rfl⟩ := silent_eq_ok hstep
    rw [List.append_nil]
    exact sound_collect hg (Nat.lt_succ_of_le hle) hout hb hnext
  | complete s value =>
    obtain ⟨rfl, hg, -, hout⟩ := hs
    cases hc : character s value with
    | error e => simp [step, hc, Except.map] at hstep
    | ok first =>
      simp only [step, hc, Except.map, Except.ok.injEq, Prod.mk.injEq] at hstep
      obtain ⟨rfl, rfl⟩ := hstep
      -- with the escape written the byte comes as it would outside one, and may open the next
      rw [← List.append_assoc]
      exact sound_copyStep (hg.decode_take hout hc) hb

theorem sound_of_after (hn : after buf n = some h) : h.Sound buf := by
  induction n generalizing h with
  | zero =>
    obtain rfl := Option.some.inj hn
    rfl
  | succ n ih =>
    obtain ⟨h, b, hbefore, hb, ht⟩ := after_succ_iff.mp hn
    exact (ih hbefore).turn hb ht

theorem Sound.gathered_lt (hs : h.Sound buf) : h.state.gathered.toNat < 2 ^ 28 := by
  obtain ⟨p, state, out⟩ := h
  cases state with
  | digits s value count =>
    obtain ⟨-, hle, -, -, hlt, -⟩ := hs
    exact Nat.lt_of_lt_of_le hlt (Nat.pow_le_pow_right (by omega) hle)
  | _ => exact Nat.two_pow_pos 28

theorem scan_turn (ht : h.turn b = .ok h') (r : Bytes) :
    (scan h.position h.state (b :: r)).map (h.out ++ ·) =
      (scan h'.position h'.state r).map (h'.out ++ ·) := by
  obtain ⟨more, next, hstep, rfl⟩ := turn_eq_ok_iff.mp ht
  simp only [scan, hstep]
  cases scan (h.position + 1) next r <;> simp [Except.map]

theorem decode_of_after (hn : after buf n = some h) :
    decode buf = (scan h.position h.state (buf.drop h.position)).map (h.out ++ ·) := by
  induction n generalizing h with
  | zero =>
    obtain rfl := Option.some.inj hn
    change decode buf = (decode buf).map ([] ++ ·)
    cases decode buf <;> rfl
  | succ n ih =>
    obtain ⟨h, b, hbefore, hb, ht⟩ := after_succ_iff.mp hn
    obtain ⟨hlt, hget⟩ := List.getElem?_eq_some_iff.mp hb
    rw [ih hbefore, List.drop_eq_getElem_cons hlt, hget, scan_turn ht]
    obtain ⟨more, next, -, rfl⟩ := turn_eq_ok_iff.mp ht
    rfl

def Last (buf : Bytes) (h : Head) : Prop :=
  (h.position = buf.length ∧ decode buf = (finish h.state).map (h.out ++ ·)) ∨
    ∃ b e, buf[h.position]? = some b ∧ h.turn b = .error e ∧ decode buf = .error e

theorem exists_last {n : Nat} {h : Head} (hn : after buf n = some h) :
    ∃ last h, after buf last = some h ∧ after buf (last + 1) = none ∧ h.Last buf := by
  have hdecode := decode_of_after hn
  obtain ⟨hp, hle⟩ := position_of_after hn
  cases hb : buf[h.position]? with
  | none =>
    have hlen : buf.length ≤ h.position := List.getElem?_eq_none_iff.mp hb
    refine ⟨n, h, hn, by simp [after, hn, hb], Or.inl ⟨by omega, ?_⟩⟩
    rw [hdecode, List.drop_of_length_le hlen, scan]
  | some b =>
    obtain ⟨hlt, hget⟩ := List.getElem?_eq_some_iff.mp hb
    cases ht : h.turn b with
    | error e =>
      refine ⟨n, h, hn, by simp [after, hn, hb, ht, Except.toOption], Or.inr ⟨b, e, hb, ht, ?_⟩⟩
      rw [hdecode, List.drop_eq_getElem_cons hlt, hget, scan_stop (turn_eq_error_iff.mp ht)]
      rfl
    | ok next => exact exists_last (after_succ_iff.mpr ⟨h, b, hn, hb, ht⟩)
termination_by buf.length - n

end Head

/-- At every turn the state is sound and the shift by a digit loses no bit of the number; a
step makes at most one call of its own; and the loop ends with what decoding the text gives. -/
theorem loop_sound (buf : Bytes) :
    (∀ n h, Head.after buf n = some h →
      h.position = n ∧ n ≤ buf.length ∧ h.Sound buf ∧
        (h.state.gathered <<< 4).toNat = 16 * h.state.gathered.toNat) ∧
    (∀ position state b, stepWithin position b 1 state = some (step position state b)) ∧
    (∃ last h, Head.after buf last = some h ∧ (∀ n, last < n → Head.after buf n = none) ∧
      h.Last buf) := by
  refine ⟨fun n h hn => ?_, stepWithin_one, ?_⟩
  · obtain ⟨hp, hle⟩ := Head.position_of_after hn
    have hs := Head.sound_of_after hn
    exact ⟨hp, hle, hs, toNat_shift hs.gathered_lt⟩
  · have hstart : Head.after buf 0 = some Head.start := rfl
    obtain ⟨last, h, hlast, hnext, hend⟩ := Head.exists_last hstart
    exact ⟨last, h, hlast, fun n hn => Head.after_later hnext hn, hend⟩

theorem loop_sound_adjacent :
    let buf := Utf8.ofString "a\\U0001F60A\\U00"
    let full : Head := ⟨11, .complete 1 0x1F60A, Utf8.ofString "a"⟩
    let reopened : Head := ⟨12, .afterLead 11, Utf8.ofString "a😊"⟩
    let more : Head := ⟨15, .digits 11 0 2, Utf8.ofString "a😊"⟩
    Head.after buf 11 = some full ∧ full.Sound buf ∧
    Head.after buf 12 = some reopened ∧ reopened.Sound buf ∧
    Head.after buf 15 = some more ∧ more.Sound buf ∧ Head.after buf 16 = none := by
  intro buf full reopened more
  have hfull : Head.after buf 11 = some full := by decide +kernel
  have hreopened : Head.after buf 12 = some reopened := by decide +kernel
  have hmore : Head.after buf 15 = some more := by decide +kernel
  obtain ⟨hall, -, -⟩ := loop_sound buf
  exact ⟨hfull, (hall 11 full hfull).2.2.1, hreopened, (hall 12 reopened hreopened).2.2.1,
    hmore, (hall 15 more hmore).2.2.1, by decide +kernel⟩

end YamlLayout.Escape
