import YamlLayout.Proofs.Collapsing
import YamlLayout.Proofs.NormalForm

/-! A finished document is not changed by finishing it again, nothing being reformatted: its
terminators, its directives and its empty lines already are as a run would leave them. -/
namespace YamlLayout
open Lines LineBreaks

theorem LineBreaks.cleared_cleared (l : Bytes) : cleared (cleared l) = cleared l := by
  cases hg : isGap l with
  | true => rw [cleared_gap hg, cleared_gap isGap_nil]
  | false => rw [(cleared_text hg).1, (cleared_text hg).1]

theorem LineBreaks.settled_settled (mode : LineBreakMode) (ls : List Bytes) :
    settled mode (settled mode ls) = settled mode ls := by
  have hcleared : ∀ l ∈ ls.map cleared, cleared l = l := by
    intro l hl
    obtain ⟨k, -, rfl⟩ := List.mem_map.mp hl
    exact cleared_cleared k
  cases mode with
  | all => exact (List.map_congr_left hcleared).trans (List.map_id _)
  | single =>
    have hkept : ∀ l ∈ (ls.map cleared).destutter Apart, cleared l = l := fun l hl =>
      hcleared l ((List.destutter_sublist Apart _).mem hl)
    have hmap := (List.map_congr_left hkept).trans (List.map_id _)
    simp only [settled]
    rw [collapsed_eq_destutter ls, collapsed_eq_destutter, hmap, List.destutter_idem]

namespace Config

theorem normalLines_normalLines (c : Config) (ls : List Bytes) :
    c.normalLines (c.normalLines ls) = c.normalLines ls := by
  unfold normalLines
  split
  · rfl
  · exact settled_settled _ ls

theorem normalForm_normalForm (c : Config) (input : Bytes) :
    c.normalForm (c.normalForm input) = c.normalForm input := by
  by_cases hn : c.stripDirectives = false ∧ c.lineBreakMode = none
  · have hform (x : Bytes) : c.normalForm x = c.lineEnding.write (stripReturns x) := if_pos hn
    rw [hform, hform, c.lineEnding.stripReturns_write,
      stripReturns_of_not_mem (carriageReturn_not_mem_stripReturns input)]
  · have hform (x : Bytes) : c.normalForm x = terminate c.lineEnding.separator
        (c.normalLines (split (stripReturns x))) := if_neg hn
    have hbare : ∀ l ∈ c.normalLines (split (stripReturns input)), Bare l :=
      c.normalLines_bare fun _ => bare_of_mem_source
    rw [hform, hform, c.lineEnding.split_stripReturns_terminate hbare, normalLines_normalLines]

end Config

/-- A second run leaves the finished document as it is. -/
theorem passthrough_idempotent (c : Config) (hc : c.parseUnicode = false) (input : Bytes) :
    let run (x : Bytes) := ((Formatter.ofConfig c .passthrough).format x).outcome
    (∃ out, run input = .done out) ∧ ∀ out, run input = .done out → run out = .done out := by
  intro run
  have hrun (x : Bytes) : run x = .done (c.normalForm x) := Formatter.format_passthrough hc x
  refine ⟨⟨_, hrun input⟩, fun out hout => ?_⟩
  obtain rfl := Outcome.done.inj ((hrun input).symm.trans hout)
  rw [hrun, c.normalForm_normalForm]

theorem passthrough_idempotent_single :
    let c : Config :=
      { lineEnding := .crlf, retainLineBreaksSingle := true, stripDirectives := true }
    let input := Utf8.ofString "\r%A\r\n\n \n  #magic___^_^___line!\nb\r\r\n\t\n%B"
    let out := Utf8.ofString "%A\r\n\r\nb\r\n\r\n%B\r\n"
    c.parseUnicode = false ∧
    ((Formatter.ofConfig c .passthrough).format input).outcome = .done out ∧
    ((Formatter.ofConfig c .passthrough).format out).outcome = .done out := by
  intro c input out
  have hout : ((Formatter.ofConfig c .passthrough).format input).outcome = .done out := by
    decide +kernel
  exact ⟨rfl, hout, (passthrough_idempotent c rfl input).2 out hout⟩

end YamlLayout
