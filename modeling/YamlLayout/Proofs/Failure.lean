import YamlLayout.Proofs.Formatter

/-! How lists of the library's own features fail, in any order and with any of them standing
there more than once. Nothing fails before the reformat. After it an escape may not read, or
directives that one feature has used up are asked for by a second one; the first of these in
the list decides. -/
namespace YamlLayout

inductive Builtin where
  | lineEnding (ending : LineEnding)
  | stripDirectives (ending : LineEnding)
  | retainLineBreaks (ending : LineEnding) (mode : LineBreakMode)
  | parseUnicode
  deriving DecidableEq

/-- How many lists of directives a context holds. -/
def Context.stock (context : Context) : Nat := context.directives.isSome.toNat

namespace Builtin

def feature : Builtin → Feature
  | lineEnding ending => .lineEnding ending
  | stripDirectives ending => .stripDirectives ending
  | retainLineBreaks ending mode => .retainLineBreaks ending mode
  | parseUnicode => .parseUnicode

def strips : Builtin → Bool
  | stripDirectives _ => true
  | _ => false

theorem before_step (b : Builtin) (context : Context) (x : Bytes) :
    ∃ k out, (Feature.apply .before [b.feature] context x).Ends k out ∧
      k.directives.isSome = (b.strips || context.directives.isSome) := by
  cases b with
  | lineEnding e => exact ⟨_, _, Feature.lineEnding_before e context x, rfl⟩
  | stripDirectives e => exact ⟨_, _, Feature.stripDirectives_before e context x, rfl⟩
  | retainLineBreaks e mode => exact ⟨_, _, Feature.retainLineBreaks_before e mode context x, rfl⟩
  | parseUnicode => exact ⟨_, _, Feature.parseUnicode_before context x, rfl⟩

theorem before_run (bs : List Builtin) (context : Context) (x : Bytes) :
    ∃ k out, (Feature.apply .before (bs.map feature) context x).Ends k out ∧
      k.directives.isSome = (bs.any strips || context.directives.isSome) := by
  induction bs generalizing context x with
  | nil => exact ⟨_, _, Feature.ends_nil _ _ _, by simp⟩
  | cons b bs ih =>
    obtain ⟨k, out, hb, hk⟩ := before_step b context x
    obtain ⟨k', out', hbs, hk'⟩ := ih k out
    refine ⟨k', out', Feature.ends_append hb hbs, ?_⟩
    rw [hk', hk, List.any_cons]
    cases b.strips <;> simp

/-- All that one feature can do after the reformat. -/
inductive After (b : Builtin) (context : Context) (x : Bytes) (r : Run) : Prop where
  | kept {out : Bytes} (hb : b.strips = false) (hp : b ≠ parseUnicode) (h : r.Ends context out)
  | placed {out : Bytes} (hb : b.strips = true) (hs : context.stock = 1) (h : r.Ends {} out)
  | missing (hb : b.strips = true) (hs : context.stock = 0)
    (h : r.outcome = .breach .directivesNeverRecorded)
  | read {out : Bytes} (hb : b = parseUnicode) (hd : Escape.decode x = .ok out)
    (h : r.Ends context out)
  | unread {source : Error} (hb : b = parseUnicode) (hd : Escape.decode x = .error source)
    (h : r.outcome = .failed (.featureApply "Parse Unicode Points" .after source))

section step
variable (b : Builtin) (context : Context) (x : Bytes)

theorem after_step : After b context x (Feature.apply .after [b.feature] context x) := by
  cases b with
  | lineEnding e => exact .kept rfl (by simp) (Feature.lineEnding_after e context x)
  | retainLineBreaks e mode =>
    exact .kept rfl (by simp) (Feature.retainLineBreaks_after e mode context x)
  | stripDirectives e =>
    obtain ⟨directives⟩ := context
    cases directives with
    | none => exact .missing rfl rfl (Feature.stripDirectives_after_none e x)
    | some ds => exact .placed rfl rfl (Feature.stripDirectives_after e ds x)
  | parseUnicode =>
    have hout := Feature.parseUnicode_after context x
    have hcontext := Feature.parseUnicode_after_context context x
    cases hd : Escape.decode x with
    | ok out => exact .read rfl hd ⟨by rw [hd] at hout; exact hout, hcontext⟩
    | error source => exact .unread rfl hd (by rw [hd] at hout; exact hout)

variable {b context x}

theorem stock_of_ends {k : Context} {out : Bytes}
    (h : (Feature.apply .after [b.feature] context x).Ends k out) :
    b.strips.toNat + k.stock = context.stock := by
  cases after_step b context x with
  | kept hb hp h' =>
    obtain rfl := h.context.symm.trans h'.context
    simp [hb]
  | placed hb hs h' =>
    obtain rfl := h.context.symm.trans h'.context
    rw [hb, hs]
    rfl
  | missing hb hs h' => exact absurd (h.outcome.symm.trans h') (by simp)
  | read hb hd h' =>
    obtain rfl := h.context.symm.trans h'.context
    simp [hb, strips]
  | unread hb hd h' => exact absurd (h.outcome.symm.trans h') (by simp)

theorem breach_step_iff {cause : Breach} :
    (Feature.apply .after [b.feature] context x).outcome = .breach cause ↔
      b.strips = true ∧ context.stock = 0 := by
  cases after_step b context x with
  | kept hb hp h => simp [h.outcome, hb]
  | placed hb hs h => simp [h.outcome, hs]
  | missing hb hs h => simp [h, hb, hs]
  | read hb hd h =>
    rw [h.outcome]
    simp [hb, strips]
  | unread hb hd h =>
    rw [h]
    simp [hb, strips]

theorem failed_step_iff {e : Error} :
    (Feature.apply .after [b.feature] context x).outcome = .failed e ↔
      b = parseUnicode ∧ ∃ source, Escape.decode x = .error source ∧
        e = .featureApply "Parse Unicode Points" .after source := by
  cases after_step b context x with
  | kept hb hp h => simp [h.outcome, hp]
  | placed hb hs h =>
    have hp : b ≠ parseUnicode := fun e => by simp [e, strips] at hb
    simp [h.outcome, hp]
  | missing hb hs h =>
    have hp : b ≠ parseUnicode := fun e => by simp [e, strips] at hb
    simp [h, hp]
  | read hb hd h => simp [h.outcome, hd]
  | unread hb hd h =>
    rw [h]
    simp [hb, hd, eq_comm]

end step

section run
variable {bs : List Builtin} {context : Context} {y : Bytes}

theorem stock_of_run {k : Context} {out : Bytes}
    (h : (Feature.apply .after (bs.map feature) context y).Ends k out) :
    bs.countP strips + k.stock = context.stock := by
  induction bs generalizing context y with
  | nil => simp [← h.context, Feature.apply]
  | cons b bs ih =>
    rw [List.map_cons, ← List.singleton_append, Feature.ends_append_iff] at h
    obtain ⟨k', x, hb, hbs⟩ := h
    rw [← stock_of_ends hb, ← ih hbs, List.countP_cons]
    cases b.strips with
    | false => simp
    | true =>
      simp only [if_true, Bool.toNat_true]
      omega

theorem stopped_run_iff {o : Outcome Bytes} (ho : ∀ output, o ≠ .done output) :
    (Feature.apply .after (bs.map feature) context y).outcome = o ↔
      ∃ before b after, bs = before ++ b :: after ∧ ∃ k x,
        (Feature.apply .after (before.map feature) context y).Ends k x ∧
        (Feature.apply .after [b.feature] k x).outcome = o := by
  rw [Feature.outcome_iff_of_stopped ho]
  constructor
  · rintro ⟨fs, f, gs, he, k, x, hx, hf⟩
    obtain ⟨before, rest, rfl, rfl, hrest⟩ := List.map_eq_append_iff.mp he
    obtain ⟨b, after, rfl, rfl, rfl⟩ := List.map_eq_cons_iff.mp hrest
    exact ⟨before, b, after, rfl, k, x, hx, hf⟩
  · rintro ⟨before, b, after, rfl, k, x, hx, hb⟩
    exact ⟨_, _, after.map feature, by simp, k, x, hx, hb⟩

/-- Every reading of escapes in this list succeeds on the text that reaches it. -/
def AllRead (context : Context) (y : Bytes) (bs : List Builtin) : Prop :=
  ∀ before after, bs = before ++ parseUnicode :: after → ∃ x out,
    (Feature.apply .after (before.map feature) context y).outcome = .done x ∧
      Escape.decode x = .ok out

theorem allRead_of_ends {k : Context} {out : Bytes}
    (h : (Feature.apply .after (bs.map feature) context y).Ends k out) : AllRead context y bs := by
  rintro before after rfl
  rw [List.map_append, List.map_cons, ← List.singleton_append, Feature.ends_append_iff] at h
  obtain ⟨k', x, hx, hrest⟩ := h
  obtain ⟨k'', out', hread, -⟩ := Feature.ends_append_iff.mp hrest
  cases hd : Escape.decode x with
  | ok out => exact ⟨x, out, hx.outcome, hd⟩
  | error source =>
    have hfail : (Feature.apply .after [parseUnicode.feature] k' x).outcome =
        .failed (.featureApply "Parse Unicode Points" .after source) :=
      failed_step_iff.mpr ⟨rfl, source, hd, rfl⟩
    exact absurd (hfail.symm.trans hread.outcome) (by simp)

theorem ends_of_allRead (hc : bs.countP strips ≤ context.stock) (hr : AllRead context y bs) :
    ∃ k out, (Feature.apply .after (bs.map feature) context y).Ends k out := by
  obtain ⟨out, h⟩ | hs := (Feature.apply .after (bs.map feature) context y).ends_or_stopped
  · exact ⟨_, out, h⟩
  · obtain ⟨before, b, after, rfl, k, x, hx, hb⟩ := (stopped_run_iff hs).mp rfl
    have hstock := stock_of_run hx
    cases ho : (Feature.apply .after [b.feature] k x).outcome with
    | done output => exact absurd (hb.symm.trans ho) (hs output)
    | failed e =>
      obtain ⟨rfl, source, hd, -⟩ := failed_step_iff.mp ho
      obtain ⟨x', out, hx', hd'⟩ := hr before after rfl
      obtain rfl := Outcome.done.inj (hx.outcome.symm.trans hx')
      exact absurd (hd.symm.trans hd') (by simp)
    | breach cause =>
      obtain ⟨hstrips, hk⟩ := breach_step_iff.mp ho
      simp only [List.countP_append, List.countP_cons, hstrips, if_true] at hc
      omega

theorem breach_run_iff {cause : Breach} :
    (Feature.apply .after (bs.map feature) context y).outcome = .breach cause ↔
      ∃ before ending after, bs = before ++ stripDirectives ending :: after ∧
        before.countP strips = context.stock ∧ AllRead context y before := by
  rw [stopped_run_iff (by simp)]
  constructor
  · rintro ⟨before, b, after, rfl, k, x, hx, hb⟩
    obtain ⟨hstrips, hk⟩ := breach_step_iff.mp hb
    have hstock := stock_of_run hx
    cases b with
    | stripDirectives ending =>
      exact ⟨before, ending, after, rfl, by omega, allRead_of_ends hx⟩
    | lineEnding | retainLineBreaks | parseUnicode => exact absurd hstrips (by simp [strips])
  · rintro ⟨before, ending, after, rfl, hc, hr⟩
    obtain ⟨k, x, hx⟩ := ends_of_allRead (Nat.le_of_eq hc) hr
    have hstock := stock_of_run hx
    exact ⟨before, _, after, rfl, k, x, hx, breach_step_iff.mpr ⟨rfl, by omega⟩⟩

theorem failed_run_iff {e : Error} :
    (Feature.apply .after (bs.map feature) context y).outcome = .failed e ↔
      ∃ before after x source, bs = before ++ parseUnicode :: after ∧
        (Feature.apply .after (before.map feature) context y).outcome = .done x ∧
        Escape.decode x = .error source ∧
        e = .featureApply "Parse Unicode Points" .after source := by
  rw [stopped_run_iff (by simp)]
  constructor
  · rintro ⟨before, b, after, rfl, k, x, hx, hb⟩
    obtain ⟨rfl, source, hd, rfl⟩ := failed_step_iff.mp hb
    exact ⟨before, after, x, source, rfl, hx.outcome, hd, rfl⟩
  · rintro ⟨before, after, x, source, rfl, hx, hd, rfl⟩
    exact ⟨before, _, after, rfl, _, x, ⟨hx, rfl⟩, failed_step_iff.mpr ⟨rfl, source, hd, rfl⟩⟩

end run

end Builtin

def Config.builtins (c : Config) : List Builtin :=
  [.lineEnding c.lineEnding]
    ++ (if c.stripDirectives then [.stripDirectives c.lineEnding] else [])
    ++ (c.lineBreakMode.map (.retainLineBreaks c.lineEnding)).toList
    ++ (if c.parseUnicode then [.parseUnicode] else [])

theorem Config.features_eq_builtins (c : Config) :
    c.features = c.builtins.map Builtin.feature := by
  unfold features builtins
  cases c.stripDirectives <;> cases c.lineBreakMode <;> cases c.parseUnicode <;> rfl

open Builtin

/-- The before phase of such a list succeeds, and a failed reformat is reported as it is. After
a reformat there is a breach just where a second feature asks for directives and every escape
before it reads; an error comes from the first escapes that do not read, and from nothing else.
With a configured list there is no breach, and escapes are read from the text that it ends with
otherwise. -/
theorem failures_exact (reformat : Reformat) (input : Bytes) :
    (∀ bs : List Builtin,
      let formatter : Formatter := ⟨bs.map feature, reformat⟩
      let outcome := (formatter.format input).outcome
      ∃ prepared, (formatter.prepare input).outcome = .done prepared ∧
        (∀ e, reformat prepared = .error e → outcome = .failed e) ∧
        (∀ y, reformat prepared = .ok y →
          let reaching (before : List Builtin) := (Feature.apply .after (before.map feature)
            (formatter.prepare input).context y).outcome
          (∀ cause, outcome = .breach cause ↔ ∃ before ending after,
            bs = before ++ .stripDirectives ending :: after ∧ before.countP strips = 1 ∧
            ∀ earlier later, before = earlier ++ .parseUnicode :: later → ∃ x out,
              reaching earlier = .done x ∧ Escape.decode x = .ok out) ∧
          (∀ e, outcome = .failed e ↔ ∃ before after x source,
            bs = before ++ .parseUnicode :: after ∧ reaching before = .done x ∧
            Escape.decode x = .error source ∧
            e = .featureApply "Parse Unicode Points" .after source))) ∧
    (∀ c : Config,
      let outcome (unicode : Bool) :=
        ((Formatter.ofConfig { c with parseUnicode := unicode } reformat).format input).outcome
      c.features = c.builtins.map feature ∧
      (∀ unicode cause, outcome unicode ≠ .breach cause) ∧
      outcome true = match outcome false with
        | .done x => match Escape.decode x with
          | .ok out => .done out
          | .error source => .failed (.featureApply "Parse Unicode Points" .after source)
        | o => o) := by
  refine ⟨fun bs => ?_, fun c => ?_⟩
  · intro formatter outcome
    obtain ⟨k, prepared, hends, hk⟩ := before_run bs {} input
    have hprepare : (formatter.prepare input).outcome = .done prepared := hends.outcome
    obtain rfl : (formatter.prepare input).context = k := hends.context
    have hformat := Formatter.outcome_of_prepare hprepare
    refine ⟨prepared, hprepare, fun e he => ?_, fun y hy => ?_⟩
    · have he : formatter.reformat prepared = .error e := he
      rwa [he] at hformat
    · have hy : formatter.reformat prepared = .ok y := hy
      rw [hy] at hformat
      intro reaching
      refine ⟨fun cause => ?_, fun e => (Eq.congr_left hformat).trans failed_run_iff⟩
      refine (Eq.congr_left hformat).trans (breach_run_iff.trans ?_)
      refine exists_congr fun before => exists_congr fun ending => exists_congr fun after =>
        and_congr_right fun hbs => and_congr_left' ?_
      have hany : bs.any strips = true := by simp [hbs, strips]
      rw [Context.stock, hk, hany]
      rfl
  · intro outcome
    refine ⟨c.features_eq_builtins, fun unicode => Formatter.format_ne_breach _ reformat input, ?_⟩
    cases h : outcome false with
    | done x => exact Formatter.format_reading h
    | failed e => exact Formatter.format_reading_failed h
    | breach cause => exact absurd h (Formatter.format_ne_breach _ reformat input cause)

theorem failures_exact_second :
    let bs : List Builtin :=
      [.stripDirectives .lf, .parseUnicode, .stripDirectives .crlf, .parseUnicode]
    let formatter (y : Bytes) : Formatter := ⟨bs.map feature, fun _ => .ok y⟩
    let outcome (y : Bytes) := ((formatter y).format (Utf8.ofString "%A\nb\n")).outcome
    outcome (Utf8.ofString "\\U0000000Ab") = .breach .directivesNeverRecorded ∧
    outcome (Utf8.ofString "\\U") =
      .failed (.featureApply "Parse Unicode Points" .after (.invalidCodePointSequence 2)) := by
  intro bs formatter outcome
  have hreach (y : Bytes) := (failures_exact (fun _ => .ok y) (Utf8.ofString "%A\nb\n")).1 bs
  constructor
  · obtain ⟨prepared, -, -, hall⟩ := hreach (Utf8.ofString "\\U0000000Ab")
    refine ((hall _ rfl).1 _).mpr ⟨bs.take 2, .crlf, [.parseUnicode], rfl, rfl, ?_⟩
    intro earlier later h
    obtain rfl : [.stripDirectives .lf] = earlier := by
      match earlier with
      | [] => simp [bs] at h
      | [b] => simpa [bs] using (List.cons.inj h).1
      | b :: d :: earlier => simp [bs] at h
    exact ⟨Utf8.ofString "\\U0000000Ab\n", Utf8.ofString "\nb\n", by decide +kernel,
      by decide +kernel⟩
  · obtain ⟨prepared, -, -, hall⟩ := hreach (Utf8.ofString "\\U")
    exact ((hall _ rfl).2 _).mpr ⟨bs.take 1, bs.drop 2, Utf8.ofString "\\U\n", _, rfl,
      by decide +kernel, by decide +kernel, rfl⟩

end YamlLayout
