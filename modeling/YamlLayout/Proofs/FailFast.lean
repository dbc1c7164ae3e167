import YamlLayout.Proofs.Feature

/-! A phase calls the actions of its features one after the other, each on what the one before
it made and left, and calls none behind the first that does not succeed. The calls are described
apart from the recursion; that it makes these and no others shows when every action tells of its
own call. -/
namespace YamlLayout.Feature

/-- One call of an action: the place of its feature in the list, what it is given, and its run. -/
structure Called where
  place : Nat
  feature : Feature
  context : Context
  input : Bytes
  run : Run

namespace Called

def later (c : Called) : Called := { c with place := c.place + 1 }

def outcome (phase : Phase) (c : Called) : Outcome Bytes :=
  match c.run.outcome with
  | .failed e => .failed (.featureApply c.feature.name phase e)
  | o => o

def verdict (phase : Phase) (c : Called) : List Event :=
  match c.run.outcome with
  | .done output => [.applied c.feature.name phase output.length]
  | .failed e => [.failed c.feature.name phase e]
  | .breach _ => []

end Called

/-- Each call is given what the one before it made and left, so that all but the last succeed. -/
def InTurn : Context → Bytes → List Called → Prop
  | _, _, [] => True
  | context, input, c :: cs => (c.context = context ∧ c.input = input) ∧
    (cs = [] ∨ ∃ output, c.run.outcome = .done output ∧ InTurn c.run.context output cs)

structure Calls (phase : Phase) (fs : List Feature) (context : Context) (input : Bytes)
    (calls : List Called) : Prop where
  answered : ∀ c ∈ calls, fs[c.place]? = some c.feature ∧
    ∃ act, c.feature.action phase = some act ∧ c.run = act c.context c.input
  rising : calls.Pairwise fun c d => c.place < d.place
  inTurn : InTurn context input calls
  /-- Only behind a call that does not succeed are there actions left over. -/
  complete : ∀ (i : Nat) (f : Feature), fs[i]? = some f → (f.action phase).isSome = true →
    (∃ c ∈ calls, c.place = i) ∨ ∃ c ∈ calls, c.place < i ∧ c.run.Stopped

theorem inTurn_later {context : Context} {input : Bytes} {calls : List Called} :
    InTurn context input (calls.map Called.later) ↔ InTurn context input calls := by
  induction calls generalizing context input with
  | nil => rfl
  | cons c cs ih => simp [InTurn, Called.later, ih]

theorem InTurn.getLast?_of_stopped {context : Context} {input : Bytes} {calls : List Called}
    (h : InTurn context input calls) {c : Called} (hc : c ∈ calls) (hs : c.run.Stopped) :
    calls.getLast? = some c := by
  induction calls generalizing context input with
  | nil => simp at hc
  | cons d cs ih =>
    obtain ⟨-, rfl | ⟨output, ho, hr⟩⟩ := h
    · simpa using (List.mem_singleton.mp hc).symm
    · cases List.mem_cons.mp hc with
      | inl he => exact absurd (he ▸ ho) (hs output)
      | inr hm =>
        rw [List.getLast?_cons, ih hr hm]
        rfl

namespace Calls
variable {phase : Phase} {f : Feature} {fs : List Feature} {context : Context} {input : Bytes}
  {calls : List Called}

theorem nil : Calls phase [] context input [] :=
  ⟨by simp, List.Pairwise.nil, trivial, by simp⟩

theorem skip (hf : f.action phase = none) (h : Calls phase fs context input calls) :
    Calls phase (f :: fs) context input (calls.map Called.later) := by
  refine ⟨fun c hc => ?_, ?_, inTurn_later.mpr h.inTurn, fun i g hg ha => ?_⟩
  · obtain ⟨d, hd, rfl⟩ := List.mem_map.mp hc
    exact h.answered d hd
  · exact List.pairwise_map.mpr (h.rising.imp Nat.succ_lt_succ)
  · cases i with
    | zero =>
      obtain rfl := Option.some.inj hg
      simp [hf] at ha
    | succ i =>
      obtain ⟨c, hc, rfl⟩ | ⟨c, hc, hlt, hs⟩ := h.complete i g hg ha
      · exact Or.inl ⟨c.later, List.mem_map_of_mem hc, rfl⟩
      · exact Or.inr ⟨c.later, List.mem_map_of_mem hc, Nat.succ_lt_succ hlt, hs⟩

section action
variable {act : Action} (hf : f.action phase = some act)
include hf

theorem stop (fs : List Feature) (hs : (act context input).Stopped) :
    Calls phase (f :: fs) context input [⟨0, f, context, input, act context input⟩] := by
  refine ⟨fun c hc => ?_, List.pairwise_singleton _ _, ⟨⟨rfl, rfl⟩, Or.inl rfl⟩,
    fun i g _ _ => ?_⟩
  · obtain rfl := List.mem_singleton.mp hc
    exact ⟨rfl, act, hf, rfl⟩
  · cases i with
    | zero => exact Or.inl ⟨_, List.mem_singleton_self _, rfl⟩
    | succ i => exact Or.inr ⟨_, List.mem_singleton_self _, Nat.succ_pos i, hs⟩

theorem next {output : Bytes} (ho : (act context input).outcome = .done output)
    (h : Calls phase fs (act context input).context output calls) :
    Calls phase (f :: fs) context input
      (⟨0, f, context, input, act context input⟩ :: calls.map Called.later) := by
  refine ⟨fun c hc => ?_, List.Pairwise.cons (fun c hc => ?_) ?_,
    ⟨⟨rfl, rfl⟩, Or.inr ⟨output, ho, inTurn_later.mpr h.inTurn⟩⟩, fun i g hg ha => ?_⟩
  · cases List.mem_cons.mp hc with
    | inl he =>
      rw [he]
      exact ⟨rfl, act, hf, rfl⟩
    | inr hc =>
      obtain ⟨d, hd, rfl⟩ := List.mem_map.mp hc
      exact h.answered d hd
  · obtain ⟨d, hd, rfl⟩ := List.mem_map.mp hc
    exact Nat.succ_pos d.place
  · exact List.pairwise_map.mpr (h.rising.imp Nat.succ_lt_succ)
  · cases i with
    | zero => exact Or.inl ⟨_, List.mem_cons_self, rfl⟩
    | succ i =>
      obtain ⟨c, hc, rfl⟩ | ⟨c, hc, hlt, hs⟩ := h.complete i g hg ha
      · exact Or.inl ⟨c.later, List.mem_cons_of_mem _ (List.mem_map_of_mem hc), rfl⟩
      · exact Or.inr ⟨c.later, List.mem_cons_of_mem _ (List.mem_map_of_mem hc),
          Nat.succ_lt_succ hlt, hs⟩

end action
end Calls

/-- What an action may tell of each call before it starts, by its place in the list. -/
abbrev Tale := Nat → Context → Bytes → List Event

def telling (tale : Context → Bytes → List Event) (act : Action) : Action := fun context input =>
  let run := act context input
  { run with events := tale context input ++ run.events }

def watch (tale : Context → Bytes → List Event) (f : Feature) : Feature :=
  { f with before := f.before.map (telling tale), after := f.after.map (telling tale) }

def watched (tale : Tale) (fs : List Feature) : List Feature :=
  fs.mapIdx fun i f => f.watch (tale i)

theorem watched_cons (tale : Tale) (f : Feature) (fs : List Feature) :
    watched tale (f :: fs) = f.watch (tale 0) :: watched (fun i => tale (i + 1)) fs :=
  List.mapIdx_cons

theorem action_watch (tale : Context → Bytes → List Event) (f : Feature) (phase : Phase) :
    (f.watch tale).action phase = (f.action phase).map (telling tale) := by
  cases phase <;> rfl

theorem watched_silent (fs : List Feature) : watched (fun _ _ _ => []) fs = fs := by
  have hact : telling (fun _ _ => []) = id := rfl
  have hwatch (f : Feature) : f.watch (fun _ _ => []) = f := by
    simp [watch, hact]
  induction fs with
  | nil => rfl
  | cons f fs ih => rw [watched_cons, hwatch, ih]

def Called.told (phase : Phase) (tale : Tale) (c : Called) : List Event :=
  tale c.place c.context c.input ++ (c.run.events ++ c.verdict phase)

def concluded (phase : Phase) (tale : Tale) (context : Context) (input : Bytes)
    (calls : List Called) : Run where
  outcome := (calls.getLast?.map (Called.outcome phase)).getD (.done input)
  context := (calls.getLast?.map (·.run.context)).getD context
  events := calls.flatMap (Called.told phase tale)

theorem concluded_later (phase : Phase) (tale : Tale) (context : Context) (input : Bytes)
    (calls : List Called) : concluded phase tale context input (calls.map Called.later) =
      concluded phase (fun i => tale (i + 1)) context input calls := by
  simp only [concluded, List.getLast?_map, Option.map_map, List.flatMap_map]
  rfl

theorem concluded_single_ends {c : Called} {output : Bytes} (ho : c.run.outcome = .done output)
    (phase : Phase) (tale : Tale) (context : Context) (input : Bytes) :
    (concluded phase tale context input [c]).Ends c.run.context output :=
  ⟨by simp [concluded, Called.outcome, ho], rfl⟩

theorem concluded_single_stopped {c : Called} (hs : c.run.Stopped) (phase : Phase) (tale : Tale)
    (context : Context) (input : Bytes) : (concluded phase tale context input [c]).Stopped := by
  intro output h
  cases ho : c.run.outcome with
  | done output => exact hs output ho
  | failed e => simp [concluded, Called.outcome, ho] at h
  | breach cause => simp [concluded, Called.outcome, ho] at h

theorem concluded_cons {c : Called} {output : Bytes} (ho : c.run.outcome = .done output)
    (phase : Phase) (tale : Tale) (context : Context) (input : Bytes) (calls : List Called) :
    concluded phase tale context input (c :: calls) =
      (concluded phase tale context input [c]).andThen
        fun k x => concluded phase tale k x calls := by
  rw [Run.andThen_of_ends (concluded_single_ends ho phase tale context input)]
  have hc : c.outcome phase = .done output := by simp [Called.outcome, ho]
  cases hl : calls.getLast? <;> simp [concluded, List.getLast?_cons, hl, hc]

theorem apply_watch {phase : Phase} {f : Feature} {act : Action} (hf : f.action phase = some act)
    (tale : Tale) (context : Context) (input : Bytes) :
    apply phase [f.watch (tale 0)] context input =
      concluded phase tale context input [⟨0, f, context, input, act context input⟩] := by
  rw [apply, action_watch, hf]
  cases ho : (act context input).outcome <;>
    simp [telling, apply, concluded, Called.outcome, Called.told, Called.verdict, ho, watch]

theorem apply_concluded (phase : Phase) (fs : List Feature) (context : Context) (input : Bytes) :
    ∃ calls, Calls phase fs context input calls ∧ ∀ tale,
      apply phase (watched tale fs) context input = concluded phase tale context input calls := by
  induction fs generalizing context input with
  | nil => exact ⟨[], Calls.nil, fun _ => rfl⟩
  | cons f fs ih =>
    cases hf : f.action phase with
    | none =>
      obtain ⟨calls, hcalls, hrun⟩ := ih context input
      refine ⟨_, hcalls.skip hf, fun tale => ?_⟩
      rw [watched_cons, apply, action_watch, hf, Option.map_none, concluded_later, ← hrun]
    | some act =>
      have hfirst (tale : Tale) : apply phase (watched tale (f :: fs)) context input =
          (concluded phase tale context input [⟨0, f, context, input, act context input⟩]).andThen
            (apply phase (watched (fun i => tale (i + 1)) fs)) := by
        rw [watched_cons, ← List.singleton_append, apply_append, apply_watch hf]
      obtain ⟨output, ho⟩ | hs := (act context input).ends_or_stopped
      · obtain ⟨calls, hcalls, hrun⟩ := ih (act context input).context output
        refine ⟨_, hcalls.next hf ho.outcome, fun tale => ?_⟩
        have hends := concluded_single_ends (c := ⟨0, f, context, input, act context input⟩)
          ho.outcome phase tale context input
        rw [hfirst, concluded_cons ho.outcome phase tale context input (calls.map Called.later),
          Run.andThen_of_ends hends, Run.andThen_of_ends hends, hrun, concluded_later]
      · refine ⟨_, Calls.stop hf fs hs, fun tale => ?_⟩
        rw [hfirst, Run.andThen_of_stopped (concluded_single_stopped hs phase tale context input)]

/-- A phase is made of calls in list order, each feature with an action at most once and none
left out before the first that does not succeed, whose context and wrapped error are its end. -/
theorem apply_fails_fast (phase : Phase) (fs : List Feature) (context : Context)
    (input : Bytes) :
    let run := apply phase fs context input
    (∃ calls, Calls phase fs context input calls ∧
      (∀ tale, apply phase (watched tale fs) context input =
        { run with events := calls.flatMap (Called.told phase tale) }) ∧
      run.events = calls.flatMap (fun c => c.run.events ++ c.verdict phase) ∧
      (calls = [] → run.outcome = .done input ∧ run.context = context) ∧
      (∀ c, calls.getLast? = some c → run.context = c.run.context ∧
        (∀ output, c.run.outcome = .done output → run.outcome = .done output) ∧
        (∀ e, c.run.outcome = .failed e →
          run.outcome = .failed (.featureApply c.feature.name phase e)) ∧
        (∀ cause, c.run.outcome = .breach cause → run.outcome = .breach cause)) ∧
      (∀ c ∈ calls, c.run.Stopped → calls.getLast? = some c)) ∧
    (∀ earlier f later, fs = earlier ++ f :: later →
      (apply phase (earlier ++ [f]) context input).Stopped →
      ∀ other, apply phase (earlier ++ f :: other) context input = run) ∧
    ∀ gs, apply phase (fs ++ gs) context input = run.andThen (apply phase gs) := by
  intro run
  refine ⟨?calls, fun earlier f later hfs hs other => ?others,
    fun gs => apply_append phase fs gs context input⟩
  case calls =>
    obtain ⟨calls, hcalls, hrun⟩ := apply_concluded phase fs context input
    have hsilent : run = concluded phase (fun _ _ _ => []) context input calls := by
      rw [← hrun, watched_silent]
    refine ⟨calls, hcalls, fun tale => ?_, ?_, fun hnil => ?_, fun c hc => ?_, fun c hc hs =>
      hcalls.inTurn.getLast?_of_stopped hc hs⟩
    · rw [hrun, hsilent]
      rfl
    · rw [hsilent]
      rfl
    · rw [hsilent, hnil]
      exact ⟨rfl, rfl⟩
    · have hout : run.outcome = c.outcome phase := by simp [hsilent, concluded, hc]
      refine ⟨by simp [hsilent, concluded, hc], ?_, ?_, ?_⟩ <;>
        (intro _ ho; simp [hout, Called.outcome, ho])
  case others =>
    have hsplit (gs : List Feature) : apply phase (earlier ++ f :: gs) context input =
        apply phase (earlier ++ [f]) context input := by
      rw [← List.singleton_append, ← List.append_assoc, apply_append_of_stopped hs]
    rw [hsplit other, ← hsplit later, ← hfs]

theorem apply_fails_fast_second :
    let grow : Action := fun _ x => ⟨.done (x ++ x), ⟨some []⟩, [.note "grow"]⟩
    let fail : Action := fun _ _ => ⟨.failed (.invalidCodePointSequence 3), {}, [.note "fail"]⟩
    let earlier : List Feature := [⟨"Grow", some grow, none⟩, ⟨"Idle", none, some grow⟩]
    let failing : Feature := ⟨"Fail", some fail, none⟩
    let input := Utf8.ofString "ab"
    (apply .before (earlier ++ [failing]) {} input).Stopped ∧
    ∀ other, apply .before (earlier ++ failing :: other) {} input =
      ⟨.failed (.featureApply "Fail" .before (.invalidCodePointSequence 3)), {},
        [.note "grow", .applied "Grow" .before 4, .note "fail",
          .failed "Fail" .before (.invalidCodePointSequence 3)]⟩ := by
  intro grow fail earlier failing input
  have hs : (apply .before (earlier ++ [failing]) {} input).Stopped := by
    intro output h
    exact absurd h (by simp [earlier, failing, apply, action, grow, fail])
  have hothers := (apply_fails_fast .before (earlier ++ [failing]) {} input).2.1
    earlier failing [] rfl hs
  exact ⟨hs, fun other => (hothers other).trans rfl⟩

end YamlLayout.Feature
