import YamlLayout.Proofs.Consistency
import YamlLayout.Proofs.NormalForm

/-! Which texts get back all their carriage returns, and no others, once these are taken out: those
in which carriage returns and line feeds stand only as pairs. What is taken out and what is put
in is the same for a text and for the text with a carriage return more before each line feed, so
the two make the same run. -/
namespace YamlLayout
open Lines

theorem Paired.line_end {l r : Bytes}
    (h : Paired (· = carriageReturn) (· = lineFeed) (l ++ lineFeed :: r)) (hl : lineFeed ∉ l) :
    ∃ m, l = m ++ [carriageReturn] ∧ carriageReturn ∉ m := by
  obtain ⟨m, y, rfl, rfl⟩ := (h l lineFeed r rfl).2 rfl
  refine ⟨m, rfl, fun hm => ?_⟩
  obtain ⟨a, b, rfl, -⟩ := List.eq_append_cons_of_mem hm
  obtain ⟨y, s, hs, rfl⟩ := (h a carriageReturn (b ++ carriageReturn :: lineFeed :: r)
    (by simp)).1 rfl
  cases b with
  | nil => exact absurd (List.cons.inj hs).1 (by decide)
  | cons z b => exact hl (by simp [(List.cons.inj hs).1])

theorem Paired.behind_line {l r : Bytes}
    (h : Paired (· = carriageReturn) (· = lineFeed) (l ++ lineFeed :: r)) :
    Paired (· = carriageReturn) (· = lineFeed) r := by
  intro k x s hr
  obtain ⟨hnext, hprevious⟩ := h (l ++ lineFeed :: k) x s (by simp [hr])
  refine ⟨hnext, fun hx => ?_⟩
  obtain ⟨k', y, hk, rfl⟩ := hprevious hx
  -- the byte before `x` is not the line feed that ends the line
  obtain rfl | ⟨k, z, rfl⟩ := List.eq_nil_or_concat' k
  · exact absurd (List.append_singleton_inj.mp hk).2 (by decide)
  · rw [← List.cons_append, ← List.append_assoc] at hk
    exact ⟨k, z, rfl, (List.append_singleton_inj.mp hk).2⟩

theorem insertReturns_stripReturns_of_paired {x : Bytes}
    (h : Paired (· = carriageReturn) (· = lineFeed) x) : insertReturns (stripReturns x) = x := by
  induction x using byLines with
  | nil => rfl
  | last l hl hne =>
    have hr : carriageReturn ∉ l := by
      intro hm
      obtain ⟨a, b, rfl, -⟩ := List.eq_append_cons_of_mem hm
      obtain ⟨y, s, rfl, rfl⟩ := (h a carriageReturn b rfl).1 rfl
      exact hl (by simp)
    rw [stripReturns_of_not_mem hr, insertReturns_of_not_mem hl]
  | line l r hl ih =>
    obtain ⟨m, rfl, hm⟩ := h.line_end hl
    have hfeed : lineFeed ∉ m := fun hf => hl (List.mem_append_left _ hf)
    have hstrip : stripReturns (m ++ [carriageReturn] ++ lineFeed :: r) =
        m ++ lineFeed :: stripReturns r := by
      rw [stripReturns_append, stripReturns_append, stripReturns_of_not_mem hm, List.append_assoc]
      rfl
    rw [hstrip, insertReturns_line m _ hfeed, ih h.behind_line]

theorem insertReturns_stripReturns_eq_iff (x : Bytes) :
    insertReturns (stripReturns x) = x ↔ Coupled [carriageReturn] [lineFeed] x := by
  constructor
  · intro h
    exact h ▸ coupled_insertReturns (carriageReturn_not_mem_stripReturns x)
  · intro h
    exact insertReturns_stripReturns_of_paired ((coupled_iff_paired x).mp h)

/-- The first step of every run takes out the carriage returns, and no later one sees them. -/
theorem Formatter.prepare_congr (c : Config) (reformat : Reformat) {input input' : Bytes}
    (h : stripReturns input = stripReturns input') :
    (ofConfig c reformat).prepare input = (ofConfig c reformat).prepare input' := by
  have hrun (fs : List Feature) : Feature.apply .before (.lineEnding c.lineEnding :: fs) {} input =
      Feature.apply .before (.lineEnding c.lineEnding :: fs) {} input' := by
    simp only [Feature.apply, Feature.action, Feature.lineEnding, Feature.pureAction, h]
  exact hrun _

/-- A text gets back what was taken out exactly when its carriage returns and line feeds stand in
pairs, and a run does not tell it from the text with one more carriage return before each line
feed. The runs are compared with what they set aside and report. -/
theorem unchanged_iff_coupled (x : Bytes) :
    (insertReturns (stripReturns x) = x ↔ Coupled [carriageReturn] [lineFeed] x) ∧
    (((Formatter.ofConfig { lineEnding := .crlf } .passthrough).format x).outcome = .done x ↔
      Coupled [carriageReturn] [lineFeed] x) ∧
    stripReturns (insertReturns x) = stripReturns x ∧
    ∀ (c : Config) (reformat : Reformat),
      (Formatter.ofConfig c reformat).format (insertReturns x) =
        (Formatter.ofConfig c reformat).format x := by
  refine ⟨insertReturns_stripReturns_eq_iff x, ?_, stripReturns_insertReturns x,
    fun c reformat => ?_⟩
  · have hrun : ((Formatter.ofConfig { lineEnding := .crlf } .passthrough).format x).outcome =
        .done (insertReturns (stripReturns x)) := Formatter.format_passthrough rfl x
    rw [hrun, Outcome.done.injEq]
    exact insertReturns_stripReturns_eq_iff x
  · have hprepare := Formatter.prepare_congr c reformat (stripReturns_insertReturns x)
    simp only [Formatter.format, hprepare]

end YamlLayout
