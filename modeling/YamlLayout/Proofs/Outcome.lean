import YamlLayout.Formatter
import YamlLayout.Proofs.Feature

/-! The two phases of a configured formatter as functions on texts, and a whole run as the
reformat between them. Only the reformat and the reading of escapes can fail. -/
namespace YamlLayout
namespace Config

def prepared (c : Config) (input : Bytes) : Bytes :=
  let content := stripReturns input
  let kept := if c.stripDirectives then (Directive.strip content).1 else content
  if c.lineBreakMode.isSome then LineBreaks.replace kept else kept

/-- What the before phase leaves in a context that may already have been used. -/
def setAsideIn (c : Config) (context : Context) (input : Bytes) : Context :=
  if c.stripDirectives then ⟨some (Directive.recorded (Lines.split (stripReturns input)))⟩
  else context

def setAside (c : Config) (input : Bytes) : Context :=
  c.setAsideIn {} input

def placed (c : Config) (directives : List Directive) (reformatted : Bytes) : Bytes :=
  let written := c.lineEnding.write reformatted
  if c.stripDirectives then Directive.restore written directives c.lineEnding.separator
  else written

/-- The text of a finished document, but for its escapes. -/
def restored (c : Config) (directives : List Directive) (reformatted : Bytes) : Bytes :=
  let content := c.placed directives reformatted
  match c.lineBreakMode with
  | none => content
  | some mode => LineBreaks.restore content c.lineEnding.separator mode

def finished (c : Config) (content : Bytes) : Outcome Bytes :=
  if c.parseUnicode then
    match Escape.decode content with
    | .ok output => .done output
    | .error e => .failed (.featureApply "Parse Unicode Points" .after e)
  else .done content

theorem finished_ne_breach (c : Config) (content : Bytes) (cause : Breach) :
    c.finished content ≠ .breach cause := by
  unfold finished
  split
  · split <;> simp
  · simp

theorem before_ends_in (c : Config) (context : Context) (input : Bytes) :
    (Feature.apply .before c.features context input).Ends (c.setAsideIn context input)
      (c.prepared input) := by
  have hstrip : (Feature.apply .before
      (if c.stripDirectives then [Feature.stripDirectives c.lineEnding] else []) context
      (stripReturns input)).Ends (c.setAsideIn context input)
      (if c.stripDirectives then (Directive.strip (stripReturns input)).1
        else stripReturns input) := by
    unfold setAsideIn
    split
    · exact Feature.stripDirectives_before _ _ _
    · exact Feature.ends_nil _ _ _
  have hretain (context : Context) (content : Bytes) : (Feature.apply .before
      (c.lineBreakMode.map (Feature.retainLineBreaks c.lineEnding)).toList context
      content).Ends context
      (if c.lineBreakMode.isSome then LineBreaks.replace content else content) := by
    cases c.lineBreakMode with
    | none => exact Feature.ends_nil _ _ _
    | some mode => exact Feature.retainLineBreaks_before _ mode _ _
  have hescape (context : Context) (content : Bytes) : (Feature.apply .before
      (if c.parseUnicode then [Feature.parseUnicode] else []) context content).Ends
      context content := by
    split
    · exact Feature.parseUnicode_before _ _
    · exact Feature.ends_nil _ _ _
  exact Feature.ends_append (Feature.ends_append (Feature.ends_append
    (Feature.lineEnding_before _ _ _) hstrip) (hretain _ _)) (hescape _ _)

theorem before_ends (c : Config) (input : Bytes) :
    (Feature.apply .before c.features {} input).Ends (c.setAside input) (c.prepared input) :=
  c.before_ends_in {} input

def restoring (c : Config) : List Feature :=
  [.lineEnding c.lineEnding]
    ++ (if c.stripDirectives then [.stripDirectives c.lineEnding] else [])
    ++ (c.lineBreakMode.map (.retainLineBreaks c.lineEnding)).toList

theorem features_eq_restoring (c : Config) :
    c.features = c.restoring ++ (if c.parseUnicode then [.parseUnicode] else []) := rfl

def usedUp (c : Config) (context : Context) : Context :=
  if c.stripDirectives then ⟨none⟩ else context

section after
variable {c : Config} {context : Context} (directives : List Directive)
  (hk : c.stripDirectives = true → context = ⟨some directives⟩) (reformatted : Bytes)
include hk

theorem restoring_after : (Feature.apply .after c.restoring context reformatted).Ends
    (c.usedUp context) (c.restored directives reformatted) := by
  have hrestore : (Feature.apply .after
      (if c.stripDirectives then [Feature.stripDirectives c.lineEnding] else []) context
      (c.lineEnding.write reformatted)).Ends (c.usedUp context)
      (c.placed directives reformatted) := by
    unfold usedUp placed
    split
    · next hs =>
      rw [hk hs]
      exact Feature.stripDirectives_after _ _ _
    · exact Feature.ends_nil _ _ _
  have hretain (context : Context) (content : Bytes) : (Feature.apply .after
      (c.lineBreakMode.map (Feature.retainLineBreaks c.lineEnding)).toList context
      content).Ends context
      (match c.lineBreakMode with
        | none => content
        | some mode => LineBreaks.restore content c.lineEnding.separator mode) := by
    cases c.lineBreakMode with
    | none => exact Feature.ends_nil _ _ _
    | some mode => exact Feature.retainLineBreaks_after _ mode _ _
  exact Feature.ends_append (Feature.ends_append
    (Feature.lineEnding_after c.lineEnding context reformatted) hrestore) (hretain _ _)

theorem after_outcome_in : (Feature.apply .after c.features context reformatted).outcome =
    c.finished (c.restored directives reformatted) := by
  rw [features_eq_restoring, Feature.outcome_append (restoring_after directives hk reformatted),
    finished]
  split
  · exact Feature.parseUnicode_after _ _
  · rfl

theorem after_context_in : (Feature.apply .after c.features context reformatted).context =
    c.usedUp context := by
  rw [features_eq_restoring, Feature.context_append (restoring_after directives hk reformatted)]
  split
  · exact Feature.parseUnicode_after_context _ _
  · rfl

end after

theorem after_outcome (c : Config) (input reformatted : Bytes) :
    (Feature.apply .after c.features (c.setAside input) reformatted).outcome =
      c.finished (c.restored (Directive.recorded (Lines.split (stripReturns input)))
        reformatted) :=
  after_outcome_in _ (fun hs => by simp [setAside, setAsideIn, hs]) reformatted

end Config

namespace Formatter

theorem prepare_outcome (c : Config) (reformat : Reformat) (input : Bytes) :
    ((ofConfig c reformat).prepare input).outcome = .done (c.prepared input) :=
  (c.before_ends input).outcome

theorem outcome_of_prepare {f : Formatter} {input prepared : Bytes}
    (h : (f.prepare input).outcome = .done prepared) :
    (f.format input).outcome =
      match f.reformat prepared with
      | .error e => .failed e
      | .ok reformatted =>
        (Feature.apply .after f.features (f.prepare input).context reformatted).outcome := by
  simp only [format, h]
  cases f.reformat prepared <;> rfl

theorem passthrough_outcome {fs : List Feature} {k : Context} {input prepared : Bytes}
    (h : (Feature.apply .before fs {} input).Ends k prepared) :
    ((⟨fs, .passthrough⟩ : Formatter).format input).outcome =
      (Feature.apply .after fs k prepared).outcome := by
  obtain rfl : ((⟨fs, .passthrough⟩ : Formatter).prepare input).context = k := h.context
  exact outcome_of_prepare h.outcome

theorem format_outcome (c : Config) (reformat : Reformat) (input : Bytes) :
    ((ofConfig c reformat).format input).outcome =
      match reformat (c.prepared input) with
      | .error e => .failed e
      | .ok reformatted =>
        c.finished (c.restored (Directive.recorded (Lines.split (stripReturns input)))
          reformatted) := by
  have hb := c.before_ends input
  have hp : (ofConfig c reformat).prepare input = Feature.apply .before c.features {} input := rfl
  rw [outcome_of_prepare (prepare_outcome c reformat input), hp, hb.context]
  simp only [ofConfig, c.after_outcome]

variable {c : Config} {reformat : Reformat} {input : Bytes}

theorem format_of_ok {y : Bytes} (hy : reformat (c.prepared input) = .ok y) :
    ((ofConfig c reformat).format input).outcome =
      c.finished (c.restored (Directive.recorded (Lines.split (stripReturns input))) y) := by
  rw [format_outcome, hy]

theorem format_done (hu : c.parseUnicode = false) {y : Bytes}
    (hy : reformat (c.prepared input) = .ok y) :
    ((ofConfig c reformat).format input).outcome =
      .done (c.restored (Directive.recorded (Lines.split (stripReturns input))) y) := by
  rw [format_of_ok hy, Config.finished, hu]
  rfl

theorem format_of_error {e : Error} (he : reformat (c.prepared input) = .error e) :
    ((ofConfig c reformat).format input).outcome = .failed e := by
  rw [format_outcome, he]

theorem format_ne_breach (c : Config) (reformat : Reformat) (input : Bytes) (cause : Breach) :
    ((ofConfig c reformat).format input).outcome ≠ .breach cause := by
  cases hr : reformat (c.prepared input) with
  | error e => simp [format_of_error hr]
  | ok y => exact format_of_ok hr ▸ c.finished_ne_breach _ cause

/-- Reading escapes as well is reading them in the text of a run that does not. -/
theorem format_reading {t : Bytes}
    (h : ((ofConfig { c with parseUnicode := false } reformat).format input).outcome = .done t) :
    ((ofConfig { c with parseUnicode := true } reformat).format input).outcome =
      match Escape.decode t with
      | .ok out => .done out
      | .error e => .failed (.featureApply "Parse Unicode Points" .after e) := by
  cases hr : reformat (c.prepared input) with
  | error e =>
    have hfail := format_of_error (c := { c with parseUnicode := false }) hr
    exact absurd (h.symm.trans hfail) (by simp)
  | ok y =>
    have hplain := format_of_ok (c := { c with parseUnicode := false }) hr
    obtain rfl := Outcome.done.inj (h.symm.trans hplain)
    exact format_of_ok (c := { c with parseUnicode := true }) hr

theorem format_reading_failed {e : Error}
    (h : ((ofConfig { c with parseUnicode := false } reformat).format input).outcome =
      .failed e) :
    ((ofConfig { c with parseUnicode := true } reformat).format input).outcome = .failed e := by
  cases hr : reformat (c.prepared input) with
  | error e' =>
    have hfail := format_of_error (c := { c with parseUnicode := false }) hr
    rw [← h, hfail]
    exact format_of_error (c := { c with parseUnicode := true }) hr
  | ok y =>
    have hplain := format_done (c := { c with parseUnicode := false }) rfl hr
    exact absurd (h.symm.trans hplain) (by simp)

end Formatter
end YamlLayout
