import Mathlib.Data.List.Induction
import YamlLayout.Proofs.Formatter

/-! The text that the reformat is given, line by line from the document: directives are
gone, and the padding of a placeholder is the deepest indentation down to its line, so
that what was taken out above it leaves no trace. -/
namespace YamlLayout
open Lines LineBreaks

def Lines.deepest (ls : List Bytes) : Nat := ls.foldl (fun w l => max w (indent l)) 0

theorem Lines.deepest_append (ls : List Bytes) (l : Bytes) :
    deepest (ls ++ [l]) = max (deepest ls) (indent l) := by
  simp [deepest]

theorem Lines.indent_le_deepest {ls : List Bytes} {l : Bytes} (h : l ∈ ls) :
    indent l ≤ deepest ls := by
  induction ls using List.reverseRecOn with
  | nil => simp at h
  | append_singleton ls m ih =>
    rw [deepest_append]
    cases List.mem_append.mp h with
    | inl h => exact Nat.le_trans (ih h) (Nat.le_max_left _ _)
    | inr h => exact List.mem_singleton.mp h ▸ Nat.le_max_right _ _

theorem Lines.deepest_le {ls : List Bytes} {w : Nat} (h : ∀ l ∈ ls, indent l ≤ w) :
    deepest ls ≤ w := by
  induction ls using List.reverseRecOn with
  | nil => exact Nat.zero_le w
  | append_singleton ls m ih =>
    rw [deepest_append]
    exact Nat.max_le.mpr ⟨ih fun l hl => h l (List.mem_append_left _ hl), h m (by simp)⟩

theorem Lines.deepest_mono {ls ms : List Bytes} (h : ∀ l ∈ ls, l ∈ ms) :
    deepest ls ≤ deepest ms :=
  deepest_le fun l hl => indent_le_deepest (h l hl)

theorem Directive.indent_of_isDirective {l : Bytes} (h : isDirective l = true) : indent l = 0 := by
  obtain ⟨r, rfl⟩ := head_of_isDirective h
  have hm : marker ≠ space := by decide
  simp [indent, hm]

theorem LineBreaks.indent_gap (p : Padding) : indent (Held.gap p).line = p.width := by
  have hp : placeholder.takeWhile (· == space) = [] := by decide
  rw [indent, Held.line, Padding.bytes,
    List.takeWhile_append_of_pos fun _ => beq_space_of_mem_replicate, hp, List.append_nil]
  exact List.length_replicate

theorem Directive.isDirective_gap (p : Padding) : isDirective (Held.gap p).line = false := by
  cases hd : isDirective (Held.gap p).line with
  | false => rfl
  | true =>
    have hg := isGap_of_isDirective hd
    simp [isGap, isPlaceholder_gap] at hg

namespace Config

/-- What a line becomes on its way to the reformat, from it and the lines before it. -/
def handed (c : Config) (before : List Bytes) (l : Bytes) : Option Bytes :=
  if c.stripDirectives && Directive.isDirective l then none
  else if c.lineBreakMode.isSome && isBlank l then
    some (List.replicate (deepest (before ++ [l])) space ++ placeholder)
  else some l

/-- The lines that go to the reformat, the first of these having some lines before it. -/
def handedFrom (c : Config) (before ls : List Bytes) : List Bytes :=
  (ls.zipIdx before.length).filterMap fun p => c.handed ((before ++ ls).take p.2) p.1

def handedLines (c : Config) (source : List Bytes) : List Bytes := c.handedFrom [] source

theorem handedFrom_cons (c : Config) (before : List Bytes) (l : Bytes) (ls : List Bytes) :
    c.handedFrom before (l :: ls) =
      (c.handed before l).toList ++ c.handedFrom (before ++ [l]) ls := by
  have ht : (before ++ l :: ls).take before.length = before := List.take_left
  simp only [handedFrom, List.zipIdx_cons, List.filterMap_cons, ht]
  cases c.handed before l <;> simp

theorem handedFrom_append (c : Config) (before ls ms : List Bytes) :
    c.handedFrom before (ls ++ ms) =
      c.handedFrom before ls ++ c.handedFrom (before ++ ls) ms := by
  induction ls generalizing before with
  | nil => simp [handedFrom]
  | cons l ls ih => simp [handedFrom_cons, ih]

theorem handed_directive {c : Config} (hs : c.stripDirectives = true) {l : Bytes}
    (hd : Directive.isDirective l = true) (before : List Bytes) : c.handed before l = none := by
  simp [handed, hs, hd]

/-- A directive is not indented, so taking it out changes no padding. -/
theorem deepest_directive {l : Bytes} (hd : Directive.isDirective l = true) (before : List Bytes) :
    deepest (before ++ [l]) = deepest before := by
  rw [deepest_append, Directive.indent_of_isDirective hd, Nat.max_zero]

theorem handed_kept {c : Config} {l : Bytes}
    (h : (c.stripDirectives && Directive.isDirective l) = false) (before : List Bytes) :
    c.handed before l = some (if c.lineBreakMode.isSome && isBlank l then
      (Held.gap (Padding.adjust ⟨deepest before⟩ l)).line else l) := by
  rw [handed, h, deepest_append]
  cases hb : c.lineBreakMode.isSome && isBlank l <;>
    simp [Held.line, Padding.bytes, Padding.adjust]

theorem keptLines_cons (c : Config) (l : Bytes) (ls : List Bytes) :
    c.keptLines (l :: ls) =
      if c.stripDirectives && Directive.isDirective l then c.keptLines ls
      else l :: c.keptLines ls := by
  cases hs : c.stripDirectives <;> cases hd : Directive.isDirective l <;>
    simp [keptLines, hs, hd]

theorem hold_handedFrom {c : Config} (hm : c.lineBreakMode.isSome = true)
    (before ls : List Bytes) :
    (hold ⟨deepest before⟩ (c.keptLines ls)).map Held.line = c.handedFrom before ls := by
  induction ls generalizing before with
  | nil => simp [handedFrom, keptLines, hold]
  | cons l ls ih =>
    have hr := ih (before ++ [l])
    rw [keptLines_cons, handedFrom_cons]
    cases h : c.stripDirectives && Directive.isDirective l with
    | true =>
      obtain ⟨hs, hd⟩ := Bool.and_eq_true_iff.mp h
      rw [deepest_directive hd] at hr
      simpa [handed_directive hs hd] using hr
    | false =>
      -- the padding carried on is the deepest indentation down to this line
      have hp : Padding.adjust ⟨deepest before⟩ l = ⟨deepest (before ++ [l])⟩ := by
        rw [deepest_append, Padding.adjust]
      rw [← hp] at hr
      simp [handed_kept h, hm, hold_cons, hr]

theorem keptLines_handedFrom {c : Config} (hm : c.lineBreakMode.isSome = false)
    (before ls : List Bytes) : c.keptLines ls = c.handedFrom before ls := by
  induction ls generalizing before with
  | nil => simp [handedFrom, keptLines]
  | cons l ls ih =>
    rw [keptLines_cons, handedFrom_cons, ← ih]
    cases h : c.stripDirectives && Directive.isDirective l with
    | true =>
      obtain ⟨hs, hd⟩ := Bool.and_eq_true_iff.mp h
      simp [handed_directive hs hd]
    | false => simp [handed_kept h, hm]

theorem preparedLines_eq_handedLines (c : Config) (source : List Bytes) :
    c.preparedLines source = c.handedLines source := by
  rw [handedLines, preparedLines]
  split
  · next hm => exact hold_handedFrom hm [] source
  · next hm => exact keptLines_handedFrom (by simpa using hm) [] source

theorem handed_cases {c : Config} {before : List Bytes} {l m : Bytes}
    (h : c.handed before l = some m) :
    (m = l ∧ (c.stripDirectives && Directive.isDirective l) = false) ∨
      m = (Held.gap ⟨deepest (before ++ [l])⟩).line := by
  unfold handed at h
  split at h
  · exact absurd h (by simp)
  · next hk =>
    split at h
    · exact Or.inr (Option.some.inj h).symm
    · exact Or.inl ⟨(Option.some.inj h).symm, by simpa using hk⟩

theorem handed_of_mem {c : Config} {source : List Bytes} {m : Bytes}
    (h : m ∈ c.handedLines source) :
    ∃ n, ∃ l ∈ source, c.handed (source.take n) l = some m := by
  obtain ⟨p, hp, hm⟩ := List.mem_filterMap.mp h
  exact ⟨p.2, p.1, List.mem_of_getElem? (List.mem_zipIdx_iff_getElem?.mp hp), hm⟩

theorem not_directive_of_mem_handedLines {c : Config} (hs : c.stripDirectives = true)
    {source : List Bytes} {m : Bytes} (h : m ∈ c.handedLines source) :
    Directive.isDirective m = false := by
  obtain ⟨n, l, -, hm⟩ := handed_of_mem h
  obtain ⟨rfl, hk⟩ | rfl := handed_cases hm
  · simpa [hs] using hk
  · exact Directive.isDirective_gap _

theorem not_blank_of_mem_handedLines {c : Config} (hm : c.lineBreakMode.isSome = true)
    {source : List Bytes} {m : Bytes} (h : m ∈ c.handedLines source) : isBlank m = false := by
  rw [← preparedLines_eq_handedLines, preparedLines, if_pos hm] at h
  exact hold_not_blank {} _ m h

theorem indent_le_of_mem_handedLines {c : Config} {source : List Bytes} {m : Bytes}
    (h : m ∈ c.handedLines source) : indent m ≤ deepest source := by
  obtain ⟨n, l, hl, hm⟩ := handed_of_mem h
  obtain ⟨rfl, -⟩ | rfl := handed_cases hm
  · exact indent_le_deepest hl
  · rw [indent_gap]
    refine deepest_mono fun k hk => ?_
    cases List.mem_append.mp hk with
    | inl hk => exact List.mem_of_mem_take hk
    | inr hk => exact List.mem_singleton.mp hk ▸ hl

theorem handedLines_blank {c : Config} (hm : c.lineBreakMode.isSome = true) {l : Bytes}
    (hl : isBlank l = true) (before after : List Bytes) :
    c.handedLines (before ++ l :: after) = c.handedLines before ++
      (Held.gap ⟨deepest (before ++ [l])⟩).line :: c.handedFrom (before ++ [l]) after := by
  have hd : Directive.isDirective l = false := by
    by_contra hd
    exact absurd hl (by simp [Directive.isBlank_of_isDirective (by simpa using hd)])
  have hk : c.handed before l = some (Held.gap ⟨deepest (before ++ [l])⟩).line := by
    rw [handed_kept (by simp [hd]), Padding.adjust, deepest_append]
    simp [hm, hl]
  rw [handedLines, handedFrom_append, handedFrom_cons, List.nil_append, hk]
  rfl

theorem prepared_congr {c d : Config} (hs : d.stripDirectives = c.stripDirectives)
    (hm : d.lineBreakMode.isSome = c.lineBreakMode.isSome) (input : Bytes) :
    d.prepared input = c.prepared input := by
  simp only [prepared, hs, hm]

theorem carriageReturn_not_mem_prepared (c : Config) (input : Bytes) :
    carriageReturn ∉ c.prepared input := by
  obtain h | ⟨hs, hm⟩ := c.lines_or_neither
  · rw [prepared_of_lines h]
    exact carriageReturn_not_mem_terminate_feed (c.preparedLines_bare fun _ => bare_of_mem_source)
  · rw [prepared_of_neither hs hm]
    exact carriageReturn_not_mem_stripReturns input

theorem split_prepared {c : Config} (h : c.stripDirectives = true ∨ c.lineBreakMode.isSome = true)
    (input : Bytes) :
    split (c.prepared input) = c.handedLines (split (stripReturns input)) := by
  rw [prepared_of_lines h,
    split_terminate_feed_bare (c.preparedLines_bare fun _ => bare_of_mem_source),
    preparedLines_eq_handedLines]

end Config

theorem Formatter.format_congr {c : Config} {reformat reformat' : Reformat} {input : Bytes}
    (h : reformat (c.prepared input) = reformat' (c.prepared input)) :
    (ofConfig c reformat).format input = (ofConfig c reformat').format input := by
  have hp := prepare_outcome c reformat' input
  have he : (ofConfig c reformat).prepare input = (ofConfig c reformat').prepare input := rfl
  simp only [format, he, hp]
  simp only [ofConfig, h]

/-- Every setting that takes out the same lines gives the reformat the same text, without a
carriage return: the lines of the document that are no directives, each blank one as a
placeholder that no line above it is indented deeper than. -/
theorem reformat_given (c : Config) (input : Bytes) :
    let source := split (stripReturns input)
    ∃ p,
      (∀ d : Config, d.stripDirectives = c.stripDirectives →
        d.lineBreakMode.isSome = c.lineBreakMode.isSome →
        ∀ reformat, ((Formatter.ofConfig d reformat).prepare input).outcome = .done p) ∧
      (∀ reformat e, reformat p = .error e →
        ((Formatter.ofConfig c reformat).format input).outcome = .failed e) ∧
      (∀ reformat reformat' : Reformat, reformat p = reformat' p →
        (Formatter.ofConfig c reformat).format input =
          (Formatter.ofConfig c reformat').format input) ∧
      carriageReturn ∉ p ∧
      (c.stripDirectives = false → c.lineBreakMode = none → p = stripReturns input) ∧
      (c.stripDirectives = true ∨ c.lineBreakMode.isSome = true →
        p = terminate [lineFeed] (c.handedLines source)) ∧
      (c.stripDirectives = true → ∀ l ∈ split p, Directive.isDirective l = false) ∧
      (c.lineBreakMode.isSome = true → ∀ l ∈ split p, isBlank l = false) ∧
      (c.lineBreakMode.isSome = true → ∀ before l after, source = before ++ l :: after →
        isBlank l = true → ∃ w below,
          split p = c.handedLines before ++ (List.replicate w space ++ placeholder) :: below ∧
          ∀ k ∈ before ++ c.handedLines before, indent k ≤ w) := by
  intro source
  refine ⟨c.prepared input, fun d hs hm reformat => ?_, fun reformat e he => ?_,
    fun reformat reformat' h => Formatter.format_congr h, c.carriageReturn_not_mem_prepared input,
    fun hs hm => Config.prepared_of_neither hs hm input, fun h => ?_, fun hs l hl => ?_,
    fun hm l hl => ?_, fun hm before l after he hb => ?_⟩
  · rw [Formatter.prepare_outcome, Config.prepared_congr hs hm]
  · exact Formatter.format_of_error he
  · rw [Config.prepared_of_lines h, Config.preparedLines_eq_handedLines]
  · rw [Config.split_prepared (Or.inl hs)] at hl
    exact Config.not_directive_of_mem_handedLines hs hl
  · rw [Config.split_prepared (Or.inr hm)] at hl
    exact Config.not_blank_of_mem_handedLines hm hl
  · have hsplit := Config.split_prepared (Or.inr hm) input
    have hsource : split (stripReturns input) = before ++ l :: after := he
    rw [hsource, Config.handedLines_blank hm hb] at hsplit
    refine ⟨deepest (before ++ [l]), _, hsplit, fun k hk => ?_⟩
    have hle : deepest before ≤ deepest (before ++ [l]) :=
      deepest_mono fun k hk => List.mem_append_left _ hk
    cases List.mem_append.mp hk with
    | inl hk => exact Nat.le_trans (indent_le_deepest hk) hle
    | inr hk => exact Nat.le_trans (Config.indent_le_of_mem_handedLines hk) hle

theorem reformat_given_deep :
    let c : Config :=
      { retainLineBreaksSingle := true, stripDirectives := true, parseUnicode := true }
    let input := Utf8.ofString "  a:\r\n%x\n\t \r\nb\n     \nc"
    let p := Utf8.ofString
      "  a:\n  #magic___^_^___line\nb\n     #magic___^_^___line\nc\n"
    carriageReturn ∉ p ∧
    ∀ e reformat, ((Formatter.ofConfig { c with lineEnding := e, retainLineBreaks := true }
      reformat).prepare input).outcome = .done p := by
  intro c input p
  obtain ⟨q, hq, -, -, hr, -, hlines, -⟩ := reformat_given c input
  obtain rfl : q = p := (hlines (Or.inl rfl)).trans (by decide +kernel)
  exact ⟨hr, fun e reformat => hq _ rfl rfl reformat⟩

end YamlLayout
