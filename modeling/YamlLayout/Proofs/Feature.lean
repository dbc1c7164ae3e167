import YamlLayout.Feature.Builtin

/-! A list of features is applied one part after the other. Each built-in feature has
its effect in each phase stated once, on the text and on the context. -/
namespace YamlLayout

/-- A run and, where it succeeds, what follows on its text and its context. -/
def Run.andThen (first : Run) (next : Context → Bytes → Run) : Run :=
  match first.outcome with
  | .done output =>
    let rest := next first.context output
    { rest with events := first.events ++ rest.events }
  | _ => first

structure Run.Ends (r : Run) (context : Context) (output : Bytes) : Prop where
  outcome : r.outcome = .done output
  context : r.context = context

def Run.Stopped (r : Run) : Prop := ∀ output, r.outcome ≠ .done output

theorem Run.ends_or_stopped (r : Run) : (∃ output, r.Ends r.context output) ∨ r.Stopped := by
  cases h : r.outcome with
  | done output => exact Or.inl ⟨output, h, rfl⟩
  | failed e => exact Or.inr fun output ho => by simp [h] at ho
  | breach cause => exact Or.inr fun output ho => by simp [h] at ho

theorem Run.Ends.not_stopped {r : Run} {context : Context} {output : Bytes}
    (h : r.Ends context output) : ¬ r.Stopped := fun hs => hs output h.outcome

theorem Run.andThen_of_ends {r : Run} {context : Context} {output : Bytes}
    (h : r.Ends context output) (next : Context → Bytes → Run) : r.andThen next =
      { next context output with events := r.events ++ (next context output).events } := by
  simp only [andThen, h.outcome, h.context]

theorem Run.andThen_of_stopped {r : Run} (h : r.Stopped) (next : Context → Bytes → Run) :
    r.andThen next = r := by
  cases ho : r.outcome with
  | done output => exact absurd ho (h output)
  | failed e => simp [andThen, ho]
  | breach cause => simp [andThen, ho]

namespace Feature

theorem apply_append (phase : Phase) (fs gs : List Feature) (context : Context) (input : Bytes) :
    apply phase (fs ++ gs) context input =
      (apply phase fs context input).andThen (apply phase gs) := by
  induction fs generalizing context input with
  | nil => simp [apply, Run.andThen]
  | cons f fs ih =>
    rw [List.cons_append, apply, apply]
    cases ha : f.action phase with
    | none => exact ih context input
    | some act =>
      cases ho : (act context input).outcome with
      | failed e => simp [ho, Run.andThen]
      | breach cause => simp [ho, Run.andThen]
      | done output =>
        simp only [ho, ih]
        cases hr : (apply phase fs (act context input).context output).outcome <;>
          simp [Run.andThen, hr]

theorem ends_append {phase : Phase} {fs gs : List Feature} {context k k' : Context}
    {input x y : Bytes} (h : (apply phase fs context input).Ends k x)
    (h' : (apply phase gs k x).Ends k' y) : (apply phase (fs ++ gs) context input).Ends k' y := by
  rw [apply_append, Run.andThen_of_ends h]
  exact ⟨h'.outcome, h'.context⟩

theorem outcome_append {phase : Phase} {fs gs : List Feature} {context k : Context}
    {input x : Bytes} (h : (apply phase fs context input).Ends k x) :
    (apply phase (fs ++ gs) context input).outcome = (apply phase gs k x).outcome := by
  rw [apply_append, Run.andThen_of_ends h]

theorem context_append {phase : Phase} {fs gs : List Feature} {context k : Context}
    {input x : Bytes} (h : (apply phase fs context input).Ends k x) :
    (apply phase (fs ++ gs) context input).context = (apply phase gs k x).context := by
  rw [apply_append, Run.andThen_of_ends h]

theorem apply_append_of_stopped {phase : Phase} {fs : List Feature} {context : Context}
    {input : Bytes} (h : (apply phase fs context input).Stopped) (gs : List Feature) :
    apply phase (fs ++ gs) context input = apply phase fs context input := by
  rw [apply_append, Run.andThen_of_stopped h]

theorem ends_append_iff {phase : Phase} {fs gs : List Feature} {context k : Context}
    {input y : Bytes} : (apply phase (fs ++ gs) context input).Ends k y ↔
      ∃ k' x, (apply phase fs context input).Ends k' x ∧ (apply phase gs k' x).Ends k y := by
  constructor
  · intro h
    obtain ⟨x, hx⟩ | hs := (apply phase fs context input).ends_or_stopped
    · exact ⟨_, x, hx, (outcome_append hx).symm.trans h.outcome,
        (context_append hx).symm.trans h.context⟩
    · rw [apply_append_of_stopped hs] at h
      exact absurd hs h.not_stopped
  · rintro ⟨k', x, hx, hy⟩
    exact ends_append hx hy

/-- A run that does not succeed ends at one feature, the list before which succeeds. -/
theorem outcome_iff_of_stopped {phase : Phase} {fs : List Feature} {context : Context}
    {input : Bytes} {o : Outcome Bytes} (ho : ∀ output, o ≠ .done output) :
    (apply phase fs context input).outcome = o ↔
      ∃ before f after, fs = before ++ f :: after ∧ ∃ k x,
        (apply phase before context input).Ends k x ∧ (apply phase [f] k x).outcome = o := by
  constructor
  · intro h
    induction fs generalizing context input with
    | nil => exact absurd h.symm (ho input)
    | cons f fs ih =>
      rw [← List.singleton_append] at h
      obtain ⟨x, hx⟩ | hs := (apply phase [f] context input).ends_or_stopped
      · rw [outcome_append hx] at h
        obtain ⟨before, g, after, rfl, k, y, hy, hg⟩ := ih h
        exact ⟨f :: before, g, after, rfl, k, y, ends_append hx hy, hg⟩
      · rw [apply_append_of_stopped hs] at h
        exact ⟨[], f, fs, rfl, context, input, ⟨rfl, rfl⟩, h⟩
  · rintro ⟨before, f, after, rfl, k, x, hx, hf⟩
    have hs : (apply phase [f] k x).Stopped := fun output hd => ho output (hf.symm.trans hd)
    rw [outcome_append hx, ← List.singleton_append, apply_append_of_stopped hs, hf]

theorem ends_nil (phase : Phase) (context : Context) (input : Bytes) :
    (apply phase [] context input).Ends context input := ⟨rfl, rfl⟩

theorem ends_single {phase : Phase} {f : Feature} {act : Action} {context k : Context}
    {input x : Bytes} (hf : f.action phase = some act) (h : (act context input).Ends k x) :
    (apply phase [f] context input).Ends k x := by
  simp only [apply, hf, h.outcome, h.context]
  exact ⟨rfl, rfl⟩

theorem ends_skip {phase : Phase} {f : Feature} (hf : f.action phase = none)
    (context : Context) (input : Bytes) : (apply phase [f] context input).Ends context input := by
  simp only [apply, hf]
  exact ⟨rfl, rfl⟩

theorem lineEnding_before (e : LineEnding) (context : Context) (input : Bytes) :
    (apply .before [lineEnding e] context input).Ends context (stripReturns input) :=
  ends_single rfl ⟨rfl, rfl⟩

theorem lineEnding_after (e : LineEnding) (context : Context) (input : Bytes) :
    (apply .after [lineEnding e] context input).Ends context (e.write input) := by
  cases e with
  | lf => exact ends_skip rfl context input
  | crlf => exact ends_single rfl ⟨rfl, rfl⟩

theorem stripDirectives_before (e : LineEnding) (context : Context) (input : Bytes) :
    (apply .before [stripDirectives e] context input).Ends
      ⟨some (Directive.strip input).2⟩ (Directive.strip input).1 :=
  ends_single rfl ⟨rfl, rfl⟩

theorem stripDirectives_after (e : LineEnding) (directives : List Directive) (input : Bytes) :
    (apply .after [stripDirectives e] ⟨some directives⟩ input).Ends
      ⟨none⟩ (Directive.restore input directives e.separator) :=
  ends_single rfl ⟨rfl, rfl⟩

theorem stripDirectives_after_none (e : LineEnding) (input : Bytes) :
    (apply .after [stripDirectives e] {} input).outcome = .breach .directivesNeverRecorded :=
  rfl

theorem retainLineBreaks_before (e : LineEnding) (mode : LineBreakMode) (context : Context)
    (input : Bytes) :
    (apply .before [retainLineBreaks e mode] context input).Ends context
      (LineBreaks.replace input) :=
  ends_single rfl ⟨rfl, rfl⟩

theorem retainLineBreaks_after (e : LineEnding) (mode : LineBreakMode) (context : Context)
    (input : Bytes) :
    (apply .after [retainLineBreaks e mode] context input).Ends context
      (LineBreaks.restore input e.separator mode) :=
  ends_single rfl ⟨rfl, rfl⟩

theorem parseUnicode_before (context : Context) (input : Bytes) :
    (apply .before [parseUnicode] context input).Ends context input :=
  ends_skip rfl context input

theorem parseUnicode_after (context : Context) (input : Bytes) :
    (apply .after [parseUnicode] context input).outcome =
      match Escape.decode input with
      | .ok output => .done output
      | .error e => .failed (.featureApply "Parse Unicode Points" .after e) := by
  cases h : Escape.decode input <;> simp [apply, action, parseUnicode, h, Outcome.ofExcept]

theorem parseUnicode_after_context (context : Context) (input : Bytes) :
    (apply .after [parseUnicode] context input).context = context := by
  cases h : Escape.decode input <;> simp [apply, action, parseUnicode, h, Outcome.ofExcept]

end Feature
end YamlLayout
