import YamlLayout.Proofs.Escape.Returns
import YamlLayout.Proofs.Formatter

/-! Two runs that differ in the terminator alone. Each step of the after phase keeps them
apart by the carriage returns before line feeds and by nothing else. -/
namespace YamlLayout
open Lines LineBreaks

/-- A step that cuts a text into lines and terminates what becomes of them reads the same
lines for each terminator. -/
theorem LineEnding.terminate_split_write (e : LineEnding) {f : List Bytes → List Bytes}
    (hf : ∀ ls, (∀ l ∈ ls, Bare l) → ∀ l ∈ f ls, Bare l) {content : Bytes}
    (h : carriageReturn ∉ content) :
    carriageReturn ∉ terminate [lineFeed] (f (split content)) ∧
      terminate e.separator (f (split (e.write content))) =
        e.write (terminate [lineFeed] (f (split content))) := by
  have hb : ∀ l ∈ f (split content), Bare l := hf _ fun l => bare_of_mem_split h
  refine ⟨carriageReturn_not_mem_terminate_feed hb, ?_⟩
  rw [e.split_write h, e.write_terminate fun l hl => (hb l hl).no_feed]

namespace Config

def variant (c : Config) (e : LineEnding) (unicode : Bool) : Config :=
  { c with lineEnding := e, parseUnicode := unicode }

variable (c : Config) (e : LineEnding) (unicode : Bool)

theorem prepared_variant (input : Bytes) :
    (c.variant e unicode).prepared input = c.prepared input := rfl

theorem placed_variant {directives : List Directive} (hd : ∀ d ∈ directives, Bare d.content)
    {y : Bytes} (hy : carriageReturn ∉ y) :
    carriageReturn ∉ (c.variant .lf false).placed directives y ∧
      (c.variant e unicode).placed directives y =
        e.write ((c.variant .lf false).placed directives y) := by
  cases hs : c.stripDirectives with
  | true =>
    have h (e : LineEnding) (unicode : Bool) := placed_of_strip (c := c.variant e unicode) hs
      directives y
    rw [h, h]
    exact e.terminate_split_write (f := c.woven directives) (fun _ => c.forall_woven hd) hy
  | false =>
    have h (e : LineEnding) (unicode : Bool) := placed_of_not_strip (c := c.variant e unicode) hs
      directives y
    rw [h, h]
    exact ⟨hy, rfl⟩

theorem restored_variant {directives : List Directive} (hd : ∀ d ∈ directives, Bare d.content)
    {y : Bytes} (hy : carriageReturn ∉ y) :
    carriageReturn ∉ (c.variant .lf false).restored directives y ∧
      (c.variant e unicode).restored directives y =
        e.write ((c.variant .lf false).restored directives y) := by
  obtain ⟨hp, he⟩ := c.placed_variant e unicode hd hy
  cases hm : c.lineBreakMode with
  | none =>
    rw [restored_none (c := c.variant .lf false) hm, restored_none (c := c.variant e unicode) hm]
    exact ⟨hp, he⟩
  | some mode =>
    rw [restored_some (c := c.variant .lf false) hm, restored_some (c := c.variant e unicode) hm,
      he]
    exact e.terminate_split_write (f := release mode false) (fun _ => release_bare mode) hp

theorem finished_insertReturns {c : Config} (hc : c.parseUnicode = true) (t : Bytes) :
    ((∃ out, c.finished t = .done out) ↔ ∃ out, c.finished (insertReturns t) = .done out) ∧
    (∀ source, c.finished t = .failed (.featureApply "Parse Unicode Points" .after source) →
      c.finished (insertReturns t) = .failed (.featureApply "Parse Unicode Points" .after
        (source.moved (Escape.carried t)))) ∧
    (∀ out out', c.finished t = .done out → c.finished (insertReturns t) = .done out' →
      ¬ Escape.lineFeedEscape <:+: t → out' = insertReturns out) := by
  simp only [finished, hc, if_true]
  cases h : Escape.decode t with
  | ok out =>
    obtain ⟨out', h', hout⟩ := Escape.decode_insertReturns_ok h
    rw [h']
    refine ⟨by simp, by simp, fun a b ha hb hf => ?_⟩
    obtain rfl := Outcome.done.inj ha
    obtain rfl := Outcome.done.inj hb
    exact hout hf
  | error source =>
    rw [Escape.decode_insertReturns_error h]
    refine ⟨by simp, fun a ha => ?_, by simp⟩
    have hs : source = a := by simpa using ha
    rw [hs]

end Config

/-- Both runs give the reformat the same text. Where it answers without a carriage return,
the second run ends as the first, with carriage returns before its line feeds; with
escapes to read, the two fail alike, or neither does. -/
theorem terminators_simulate (c : Config) (reformat : Reformat) (input : Bytes) :
    let formatter (e : LineEnding) (unicode : Bool) :=
      Formatter.ofConfig { c with lineEnding := e, parseUnicode := unicode } reformat
    let run (e : LineEnding) (unicode : Bool) := ((formatter e unicode).format input).outcome
    let unread (source : Error) : Outcome Bytes :=
      .failed (.featureApply "Parse Unicode Points" .after source)
    ∃ prepared,
      (∀ e unicode, ((formatter e unicode).prepare input).outcome = .done prepared) ∧
      (∀ failure, reformat prepared = .error failure →
        ∀ e unicode, run e unicode = .failed failure) ∧
      (∀ y, reformat prepared = .ok y → carriageReturn ∉ y → ∃ t,
        carriageReturn ∉ t ∧
        run .lf false = .done t ∧
        run .crlf false = .done (insertReturns t) ∧
        (run .lf true = match Escape.decode t with
          | .ok out => .done out
          | .error source => unread source) ∧
        ((∃ out, run .lf true = .done out) ↔ ∃ out, run .crlf true = .done out) ∧
        (∀ source, run .lf true = unread source → run .crlf true =
          unread (source.moved fun offset => offset + (t.take offset).count lineFeed)) ∧
        (∀ out out', run .lf true = .done out → run .crlf true = .done out' →
          ¬ Utf8.ofString "\\U0000000A" <:+: t → out' = insertReturns out)) := by
  intro formatter run unread
  refine ⟨c.prepared input, fun e unicode =>
    Formatter.prepare_outcome (c.variant e unicode) reformat input, ?_, ?_⟩
  · intro failure hf e unicode
    have h := Formatter.format_outcome (c.variant e unicode) reformat input
    rwa [c.prepared_variant e unicode, hf] at h
  · intro y hy hr
    have hd : ∀ d ∈ Directive.recorded (split (stripReturns input)), Bare d.content :=
      fun d => Config.recorded_content_bare
    generalize ht : (c.variant .lf false).restored
      (Directive.recorded (split (stripReturns input))) y = t
    have hrun (e : LineEnding) (unicode : Bool) :
        run e unicode = (c.variant e unicode).finished (e.write t) := by
      have h := Formatter.format_outcome (c.variant e unicode) reformat input
      rw [c.prepared_variant e unicode, hy] at h
      rw [← ht, ← (c.restored_variant e unicode hd hr).2]
      exact h
    have hfinished := Config.finished_insertReturns (c := c.variant .lf true) rfl t
    refine ⟨t, ht ▸ (c.restored_variant .lf false hd hr).1, hrun .lf false, hrun .crlf false,
      hrun .lf true, ?_⟩
    rw [hrun .lf true, hrun .crlf true]
    exact hfinished

theorem terminators_simulate_offset :
    let c : Config := { retainLineBreaks := true, stripDirectives := true }
    let input := Utf8.ofString "%a\n \n\\x"
    let prepared := Utf8.ofString " #magic___^_^___line\n\\x\n"
    let run (e : LineEnding) := ((Formatter.ofConfig
      { c with lineEnding := e, parseUnicode := true } .passthrough).format input).outcome
    Reformat.passthrough prepared = .ok prepared ∧ carriageReturn ∉ prepared ∧
    run .lf = .failed (.featureApply "Parse Unicode Points" .after
      (.invalidCodePointSequence 5)) ∧
    run .crlf = .failed (.featureApply "Parse Unicode Points" .after
      (.invalidCodePointSequence 7)) := by
  intro c input prepared run
  have hr : carriageReturn ∉ prepared := by decide +kernel
  obtain ⟨x, hp, -, h⟩ := terminators_simulate c .passthrough input
  have hx : ((Formatter.ofConfig { c with lineEnding := .lf, parseUnicode := false }
      .passthrough).prepare input).outcome = .done prepared := by decide +kernel
  obtain rfl : x = prepared := Outcome.done.inj ((hp .lf false).symm.trans hx)
  obtain ⟨t, -, ht, -, -, -, hfail, -⟩ := h prepared rfl hr
  have hout : ((Formatter.ofConfig { c with lineEnding := .lf, parseUnicode := false }
      .passthrough).format input).outcome = .done (Utf8.ofString "%a\n\n\\x\n") := by
    decide +kernel
  obtain rfl : t = Utf8.ofString "%a\n\n\\x\n" := Outcome.done.inj (ht.symm.trans hout)
  have hlf : run .lf = .failed (.featureApply "Parse Unicode Points" .after
      (.invalidCodePointSequence 5)) := by decide +kernel
  exact ⟨rfl, hr, hlf, hfail _ hlf⟩

end YamlLayout
