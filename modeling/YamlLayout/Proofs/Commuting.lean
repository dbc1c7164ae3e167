import YamlLayout.Proofs.NormalForm
import YamlLayout.Proofs.Prepared

/-! Taking out directives and keeping blank lines do not depend on which of them comes first.
Before the reformat each leaves alone the lines that the other one looks at, and their numbers;
after it blank lines are emptied where they stand, with directives among them or not. -/
namespace YamlLayout
open Lines LineBreaks

namespace Directive

theorem isDirective_held (p : Padding) (l : Bytes) :
    isDirective (if isBlank l then (Held.gap p).line else l) = isDirective l := by
  cases hd : isDirective l with
  | true => rwa [isBlank_of_isDirective hd, if_neg (by simp)]
  | false =>
    split
    · exact isDirective_gap p
    · exact hd

theorem adjust_directive {l : Bytes} (h : isDirective l = true) (p : Padding) :
    p.adjust l = p := by simp [Padding.adjust, indent_of_isDirective h]

theorem filter_hold (p : Padding) (ls : List Bytes) :
    ((hold p ls).map Held.line).filter (!isDirective ·) =
      (hold p (ls.filter (!isDirective ·))).map Held.line := by
  induction ls generalizing p with
  | nil => rfl
  | cons l ls ih =>
    have hline := isDirective_held (p.adjust l) l
    rw [hold_cons]
    cases hd : isDirective l with
    | true =>
      rw [hd] at hline
      rw [List.filter_cons_of_neg (by simp [hline]), List.filter_cons_of_neg (by simp [hd]), ih,
        adjust_directive hd]
    | false =>
      rw [hd] at hline
      rw [List.filter_cons_of_pos (by simp [hline]), List.filter_cons_of_pos (by simp [hd]), ih,
        hold_cons]

theorem numbered_hold (p : Padding) (n : Nat) (ls : List Bytes) :
    numbered n ((hold p ls).map Held.line) = numbered n ls := by
  induction ls generalizing p n with
  | nil => rfl
  | cons l ls ih =>
    have hline := isDirective_held (p.adjust l) l
    rw [hold_cons]
    cases hd : isDirective l with
    | true =>
      rw [isBlank_of_isDirective hd, if_neg (by simp), numbered_directive hd, ih,
        numbered_directive hd]
    | false =>
      rw [hd] at hline
      rw [numbered_text hline, ih, numbered_text hd]

theorem place_map {f : Bytes → Bytes} {ds : List Directive}
    (hd : ∀ d ∈ ds, f d.content = d.content) (n : Nat) (ls : List Bytes) :
    (place n ds (ls.map f)).map Placed.line = ((place n ds ls).map Placed.line).map f := by
  have hmap : List.Forall₂ (fun l m => m = f l) ls (ls.map f) :=
    List.forall₂_map_right_iff.mpr (List.forall₂_same.mpr fun _ _ => rfl)
  have hplace := place_forall₂ (fun d hm => (hd d hm).symm) n hmap
  rw [← List.forall₂_eq_eq_eq, List.forall₂_map_right_iff]
  exact hplace.flip.imp fun _ _ h => h

end Directive

theorem strip_replace {x : Bytes} (h : carriageReturn ∉ x) :
    Directive.strip (replace x) = (replace (Directive.strip x).1, (Directive.strip x).2) := by
  have hx : ∀ l ∈ split x, Bare l := fun l => bare_of_mem_split h
  have hheld := split_terminate_feed_bare (forall_hold bare_gap {} fun l hl _ => hx l hl)
  have hkept : split (terminate [lineFeed] ((split x).filter (!Directive.isDirective ·))) =
      (split x).filter (!Directive.isDirective ·) :=
    split_terminate_feed_bare fun l hl => hx l (List.mem_of_mem_filter hl)
  have hrecorded : Directive.recorded ((hold {} (split x)).map Held.line) =
      Directive.recorded (split x) := Directive.numbered_hold {} 1 (split x)
  simp only [Directive.strip, replace, held, hheld, hkept, hrecorded, Directive.filter_hold]

theorem restore_comm (e : LineEnding) {ds : List Directive}
    (hd : ∀ d ∈ ds, Bare d.content ∧ Directive.isDirective d.content = true) {y : Bytes}
    (hr : carriageReturn ∉ y) (hb : ∀ l ∈ split y, isBlank l = false) :
    Directive.restore (restore y e.separator .all) ds e.separator =
      restore (Directive.restore y ds e.separator) e.separator .all := by
  have hbare : ∀ l ∈ split y, Bare l := fun l => bare_of_mem_split hr
  have hcleared := e.split_terminate_bare (settled_bare .all hbare)
  have hplaced := e.split_terminate_bare (Directive.forall_place (fun d hm => (hd d hm).1) hbare 1)
  have hblank : ∀ l ∈ (Directive.place 1 ds (split y)).map Directive.Placed.line,
      isBlank l = false :=
    Directive.forall_place (fun d hm => Directive.isBlank_of_isDirective (hd d hm).2) hb 1
  have hkept : ∀ d ∈ ds, cleared d.content = d.content := fun d hm =>
    (cleared_text (Directive.isGap_of_isDirective (hd d hm).2)).1
  simp only [Directive.restore, Directive.placed, restore, hcleared, hplaced,
    release_of_not_blank .all hb, release_of_not_blank .all hblank]
  exact congrArg (terminate e.separator) (Directive.place_map hkept 1 (split y))

section either
variable (e : LineEnding) {x : Bytes} (hr : carriageReturn ∉ x)
include hr

theorem before_either : let context : Context := ⟨some (Directive.recorded (split x))⟩
    (Feature.apply .before [.stripDirectives e, .retainLineBreaks e .all] {} x).Ends context
      (replace (Directive.strip x).1) ∧
    (Feature.apply .before [.retainLineBreaks e .all, .stripDirectives e] {} x).Ends context
      (replace (Directive.strip x).1) := by
  intro context
  have hstrip := Feature.stripDirectives_before e {} (replace x)
  rw [strip_replace hr] at hstrip
  exact ⟨Feature.ends_append (Feature.stripDirectives_before e {} x)
      (Feature.retainLineBreaks_before e .all context _),
    Feature.ends_append (Feature.retainLineBreaks_before e .all {} x) hstrip⟩

theorem after_either {y : Bytes} (hy : carriageReturn ∉ y) (hb : ∀ l ∈ split y, isBlank l = false) :
    let context : Context := ⟨some (Directive.recorded (split x))⟩
    ∃ out,
      (Feature.apply .after [.stripDirectives e, .retainLineBreaks e .all] context y).outcome =
        .done out ∧
      (Feature.apply .after [.retainLineBreaks e .all, .stripDirectives e] context y).outcome =
        .done out := by
  intro context
  have hd : ∀ d ∈ Directive.recorded (split x),
      Bare d.content ∧ Directive.isDirective d.content = true := fun d hm =>
    ⟨bare_of_mem_split hr (Directive.content_mem_of_mem_numbered hm),
      Directive.isDirective_of_mem_numbered hm⟩
  refine ⟨_, (Feature.ends_append (Feature.stripDirectives_after e _ y)
    (Feature.retainLineBreaks_after e .all _ _)).outcome, ?_⟩
  rw [← restore_comm e hd hy hb]
  exact (Feature.ends_append (Feature.retainLineBreaks_after e .all context y)
    (Feature.stripDirectives_after e _ _)).outcome

theorem replace_strip_not_blank : carriageReturn ∉ replace (Directive.strip x).1 ∧
    ∀ l ∈ split (replace (Directive.strip x).1), isBlank l = false := by
  have hstripped : carriageReturn ∉ (Directive.strip x).1 :=
    carriageReturn_not_mem_terminate_feed fun l hl =>
      bare_of_mem_split hr (List.mem_of_mem_filter hl)
  have hlines : ∀ l ∈ (held (Directive.strip x).1).map Held.line, Bare l :=
    forall_hold bare_gap {} fun l hl _ => bare_of_mem_split hstripped hl
  have hsplit : split (replace (Directive.strip x).1) =
      (held (Directive.strip x).1).map Held.line := split_terminate_feed_bare hlines
  exact ⟨carriageReturn_not_mem_terminate_feed hlines, hsplit ▸ hold_not_blank {} _⟩

end either

/-- Whichever of the two features stands first, the reformat is given the same text with the same
directives set aside, and its answer, if it has no blank line of its own, is finished alike. -/
theorem features_commute (e : LineEnding) (input : Bytes) (hr : carriageReturn ∉ input) :
    let stripFirst := [Feature.stripDirectives e, .retainLineBreaks e .all]
    let retainFirst := [Feature.retainLineBreaks e .all, .stripDirectives e]
    ∃ prepared, ∃ context : Context,
      context.directives = some (Directive.recorded (split input)) ∧
      (Feature.apply .before stripFirst {} input).Ends context prepared ∧
      (Feature.apply .before retainFirst {} input).Ends context prepared ∧
      (∀ y, carriageReturn ∉ y → (∀ l ∈ split y, isBlank l = false) → ∃ out,
        (Feature.apply .after stripFirst context y).outcome = .done out ∧
        (Feature.apply .after retainFirst context y).outcome = .done out) ∧
      ∃ out, ((⟨stripFirst, .passthrough⟩ : Formatter).format input).outcome = .done out ∧
        ((⟨retainFirst, .passthrough⟩ : Formatter).format input).outcome = .done out := by
  intro stripFirst retainFirst
  obtain ⟨hstripFirst, hretainFirst⟩ := before_either e hr
  obtain ⟨hprepared, hblank⟩ := replace_strip_not_blank hr
  obtain ⟨out, hstrip, hretain⟩ := after_either e hr hprepared hblank
  refine ⟨_, _, rfl, hstripFirst, hretainFirst, fun y hy hb => after_either e hr hy hb, out,
    ?_, ?_⟩
  · exact (Formatter.passthrough_outcome hstripFirst).trans hstrip
  · exact (Formatter.passthrough_outcome hretainFirst).trans hretain

theorem features_commute_padded :
    let e := LineEnding.crlf
    let input := Utf8.ofString "%A\n\n  a\n%B\n\t\nb"
    let stripFirst := [Feature.stripDirectives e, .retainLineBreaks e .all]
    let retainFirst := [Feature.retainLineBreaks e .all, .stripDirectives e]
    let y := Utf8.ofString "#magic___^_^___line\n\\"
    let out := Utf8.ofString "%A\r\n\r\n\\\r\n%B\r\n"
    carriageReturn ∉ input ∧ carriageReturn ∉ y ∧ (∀ l ∈ split y, isBlank l = false) ∧
    ∃ prepared, ∃ context : Context,
      context.directives = some [⟨1, Utf8.ofString "%A"⟩, ⟨4, Utf8.ofString "%B"⟩] ∧
      (Feature.apply .before retainFirst {} input).Ends context prepared ∧
      (Feature.apply .after stripFirst context y).outcome = .done out ∧
      (Feature.apply .after retainFirst context y).outcome = .done out := by
  intro e input stripFirst retainFirst y out
  have hr : carriageReturn ∉ input := by decide +kernel
  have hy : carriageReturn ∉ y := by decide +kernel
  have hb : ∀ l ∈ split y, isBlank l = false := by decide +kernel
  obtain ⟨prepared, context, hds, -, hbefore, hafter, -⟩ := features_commute e input hr
  obtain ⟨o, hstrip, hretain⟩ := hafter y hy hb
  have hnumbers : Directive.recorded (split input) =
      [⟨1, Utf8.ofString "%A"⟩, ⟨4, Utf8.ofString "%B"⟩] := by decide +kernel
  obtain rfl : context = ⟨some [⟨1, Utf8.ofString "%A"⟩, ⟨4, Utf8.ofString "%B"⟩]⟩ := by
    rw [← hnumbers, ← hds]
  have hout : (Feature.apply .after stripFirst
      ⟨some [⟨1, Utf8.ofString "%A"⟩, ⟨4, Utf8.ofString "%B"⟩]⟩ y).outcome = .done out := by
    decide +kernel
  obtain rfl := Outcome.done.inj (hstrip.symm.trans hout)
  exact ⟨hr, hy, hb, prepared, _, rfl, hbefore, hout, hretain⟩

end YamlLayout
