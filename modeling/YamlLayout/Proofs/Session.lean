import YamlLayout.Proofs.Formatter

/-! One context kept for many calls, in any order. Where directives are taken out it is a slot
that each before phase fills anew and each after phase empties, also one that fails, so that
the last call alone tells what the next one finds. -/
namespace YamlLayout

structure Call where
  phase : Phase
  input : Bytes
  deriving DecidableEq

/-- Behind every before phase there is an after phase. -/
def Spent (past : List Call) : Prop :=
  ∀ older x newer, past = older ++ ⟨.before, x⟩ :: newer → ∃ later ∈ newer, later.phase = .after

theorem spent_nil : Spent [] := by
  intro older x newer h
  simp at h

theorem not_spent_before (past : List Call) (x : Bytes) : ¬ Spent (past ++ [⟨.before, x⟩]) := by
  intro h
  obtain ⟨later, hm, -⟩ := h past x [] rfl
  simp at hm

theorem spent_after (past : List Call) (y : Bytes) : Spent (past ++ [⟨.after, y⟩]) := by
  intro older x newer h
  obtain rfl | ⟨newest, later, rfl⟩ := List.eq_nil_or_concat' newer
  · simpa using (List.append_inj' h rfl).2
  · rw [← List.cons_append, ← List.append_assoc] at h
    obtain rfl := List.singleton_inj.mp (List.append_inj' h rfl).2
    exact ⟨_, List.mem_append_right _ (List.mem_singleton_self _), rfl⟩

namespace Feature
variable (fs : List Feature)

/-- The runs of these calls, each on the context that the one before it left. -/
def session : Context → List Call → List Run
  | _, [] => []
  | context, call :: calls =>
    let run := apply call.phase fs context call.input
    run :: session run.context calls

def leaving : Context → List Call → Context
  | context, [] => context
  | context, call :: calls => leaving (apply call.phase fs context call.input).context calls

theorem leaving_append (context : Context) (past calls : List Call) :
    leaving fs context (past ++ calls) = leaving fs (leaving fs context past) calls := by
  induction past generalizing context with
  | nil => rfl
  | cons call past ih => exact ih _

theorem session_getElem? (context : Context) (past : List Call) (call : Call)
    (rest : List Call) : (session fs context (past ++ call :: rest))[past.length]? =
      some (apply call.phase fs (leaving fs context past) call.input) := by
  induction past generalizing context with
  | nil => rfl
  | cons earlier past ih => exact ih _

end Feature

namespace Config
variable {c : Config}

theorem after_unrecorded (hs : c.stripDirectives = true) (y : Bytes) :
    (Feature.apply .after c.features {} y).outcome = .breach .directivesNeverRecorded ∧
      (Feature.apply .after c.features {} y).context = {} := by
  have hf : c.features = [.lineEnding c.lineEnding] ++ ([.stripDirectives c.lineEnding] ++
      ((c.lineBreakMode.map (.retainLineBreaks c.lineEnding)).toList ++
        (if c.parseUnicode then [.parseUnicode] else []))) := by
    simp [features, hs]
  have hends := Feature.lineEnding_after c.lineEnding {} y
  have hstop : (Feature.apply .after [.stripDirectives c.lineEnding] {}
      (c.lineEnding.write y)).Stopped := by
    simp [Run.Stopped, Feature.stripDirectives_after_none]
  rw [hf, Feature.outcome_append hends, Feature.context_append hends,
    Feature.apply_append_of_stopped hstop]
  exact ⟨rfl, rfl⟩

theorem call_context (hs : c.stripDirectives = true) (context : Context) (call : Call) :
    (Feature.apply call.phase c.features context call.input).context =
      match call.phase with
      | .before => ⟨some (Directive.recorded (Lines.split (stripReturns call.input)))⟩
      | .after => {} := by
  obtain ⟨phase, x⟩ := call
  cases phase with
  | before =>
    rw [(c.before_ends_in context x).context, setAsideIn, if_pos hs]
  | after =>
    obtain ⟨directives⟩ := context
    cases directives with
    | none => exact (after_unrecorded hs x).2
    | some ds =>
      rw [after_context_in ds (fun _ => rfl) x, usedUp, if_pos hs]

theorem leaving_of_not_strip (hs : c.stripDirectives = false) (context : Context)
    (calls : List Call) : Feature.leaving c.features context calls = context := by
  induction calls generalizing context with
  | nil => rfl
  | cons call calls ih =>
    have hcall : (Feature.apply call.phase c.features context call.input).context = context := by
      cases call.phase with
      | before => simp [(c.before_ends_in context call.input).context, setAsideIn, hs]
      | after =>
        rw [after_context_in [] (by simp [hs]), usedUp, if_neg (by simp [hs])]
    rw [Feature.leaving, hcall, ih]

/-- Every list of calls is empty or has a last one, which has left what the context holds. -/
theorem after_outcome_leaving (hs : c.stripDirectives = true) (past : List Call) (y : Bytes) :
    let run := Feature.apply .after c.features (Feature.leaving c.features {} past) y
    Spent past ∧ run.outcome = .breach .directivesNeverRecorded ∨
      ∃ older x, past = older ++ [⟨.before, x⟩] ∧ run.outcome =
        c.finished (c.restored (Directive.recorded (Lines.split (stripReturns x))) y) := by
  obtain rfl | ⟨older, ⟨phase, x⟩, rfl⟩ := List.eq_nil_or_concat' past
  · exact Or.inl ⟨spent_nil, (after_unrecorded hs y).1⟩
  · have hleft := call_context hs (Feature.leaving c.features {} older) ⟨phase, x⟩
    rw [Feature.leaving_append, Feature.leaving, Feature.leaving]
    cases phase with
    | before =>
      refine Or.inr ⟨older, x, rfl, ?_⟩
      rw [hleft]
      exact after_outcome_in _ (fun _ => rfl) y
    | after =>
      refine Or.inl ⟨spent_after older x, ?_⟩
      rw [hleft]
      exact (after_unrecorded hs y).1

end Config

/-- Calls in any order on one context. Every before phase succeeds. An after phase is a breach
exactly where no before phase has come since the last after phase, failed or not; otherwise the
call before it is a before phase, and it ends as if this had been the only one. Without
directives to take out no call changes the context, and none is a breach. -/
theorem slot_protocol (c : Config) (past : List Call) (call : Call) (rest : List Call) :
    let session (context : Context) := Feature.session c.features context (past ++ call :: rest)
    (c.stripDirectives = true → ∃ run, (session {})[past.length]? = some run ∧
      (call.phase = .before → run.outcome = .done (c.prepared call.input) ∧
        run.context = ⟨some (Directive.recorded (Lines.split (stripReturns call.input)))⟩) ∧
      (call.phase = .after → run.context = {} ∧
        (run.outcome = .breach .directivesNeverRecorded ↔ Spent past) ∧
        (run.outcome ≠ .breach .directivesNeverRecorded → ∃ older x,
          past = older ++ [⟨.before, x⟩] ∧
          run.outcome = c.finished (c.restored
            (Directive.recorded (Lines.split (stripReturns x))) call.input) ∧
          run.outcome = ((Formatter.ofConfig c fun _ => .ok call.input).format x).outcome))) ∧
    (c.stripDirectives = false → ∀ context, ∃ run, (session context)[past.length]? = some run ∧
      run.context = context ∧ ∀ cause, run.outcome ≠ .breach cause) := by
  intro session
  have hrun (context : Context) : (session context)[past.length]? = some (Feature.apply call.phase
      c.features (Feature.leaving c.features context past) call.input) :=
    Feature.session_getElem? c.features context past call rest
  obtain ⟨phase, y⟩ := call
  refine ⟨fun hs => ⟨_, hrun {}, ?_, ?_⟩, fun hs context => ⟨_, hrun context, ?_⟩⟩
  · rintro rfl
    exact ⟨(c.before_ends_in _ y).outcome, Config.call_context hs _ ⟨.before, y⟩⟩
  · rintro rfl
    refine ⟨Config.call_context hs _ ⟨.after, y⟩, ?_⟩
    obtain ⟨hspent, hout⟩ | ⟨older, x, rfl, hout⟩ := Config.after_outcome_leaving hs past y
    · exact ⟨iff_of_true hout hspent, fun h => absurd hout h⟩
    · have hne := hout.trans_ne (c.finished_ne_breach _ .directivesNeverRecorded)
      have hfresh : ((Formatter.ofConfig c fun _ => .ok y).format x).outcome = _ :=
        Formatter.format_of_ok rfl
      exact ⟨iff_of_false hne (not_spent_before older x), fun _ =>
        ⟨older, x, rfl, hout, hout.trans hfresh.symm⟩⟩
  · rw [Config.leaving_of_not_strip hs]
    have hcontext := Config.leaving_of_not_strip hs context [⟨phase, y⟩]
    refine ⟨hcontext, fun cause => ?_⟩
    cases phase with
    | before => simp [(c.before_ends_in context y).outcome]
    | after =>
      rw [Config.after_outcome_in [] (by simp [hs]) y]
      exact c.finished_ne_breach _ cause

theorem slot_protocol_reused :
    let c : Config := { lineEnding := .crlf, stripDirectives := true, parseUnicode := true }
    let past : List Call := [⟨.before, Utf8.ofString "%A\na\n"⟩, ⟨.after, Utf8.ofString "\\x"⟩,
      ⟨.before, Utf8.ofString "%B\nb"⟩, ⟨.before, Utf8.ofString "c\n%C\n"⟩]
    let last : Call := ⟨.after, Utf8.ofString "c\n"⟩
    let session := Feature.session c.features {} (past ++ [last, last])
    c.stripDirectives = true ∧
    session[1]?.map Run.outcome = some (.failed (.featureApply "Parse Unicode Points" .after
      (.invalidCodePointSequence 5))) ∧
    session[4]?.map Run.outcome = some (.done (Utf8.ofString "c\r\n%C\r\n")) ∧
    session[5]?.map Run.outcome = some (.breach .directivesNeverRecorded) := by
  intro c past last session
  obtain ⟨run, hrun, -, hafter⟩ := (slot_protocol c past last [last]).1 rfl
  obtain ⟨second, hsecond, -, hempty⟩ := (slot_protocol c (past ++ [last]) last []).1 rfl
  obtain ⟨-, hspent, hplaced⟩ := hafter rfl
  have hfilled : ¬ Spent past := not_spent_before (past.take 3) _
  obtain ⟨older, x, hpast, hout, -⟩ := hplaced (mt hspent.mp hfilled)
  obtain rfl : Utf8.ofString "c\n%C\n" = x := by
    have hsplit : past.take 3 ++ [⟨.before, Utf8.ofString "c\n%C\n"⟩] = older ++ [⟨.before, x⟩] :=
      hpast
    exact congrArg Call.input (List.singleton_inj.mp (List.append_inj' hsplit rfl).2)
  have hbreach : second.outcome = .breach .directivesNeverRecorded :=
    (hempty rfl).2.1.mpr (spent_after past last.input)
  have hfourth : session[4]? = some run := hrun
  have hfifth : session[5]? = some second := hsecond
  refine ⟨rfl, by decide +kernel, ?_, ?_⟩
  · rw [hfourth, Option.map_some, hout]
    decide +kernel
  · rw [hfifth, Option.map_some, hbreach]

end YamlLayout
