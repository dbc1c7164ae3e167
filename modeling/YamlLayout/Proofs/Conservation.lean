import YamlLayout.Proofs.NormalForm

/-! What the after phase keeps, whatever the reformat answers: the directives of the
document and the lines of the answer, blank lines and placeholders apart, each once,
unchanged, and in its order. -/
namespace YamlLayout

inductive Interleaved {α : Type} : List α → List α → List α → Prop where
  | nil : Interleaved [] [] []
  | left {x : α} {xs ys zs : List α} (h : Interleaved xs ys zs) :
    Interleaved (x :: xs) ys (x :: zs)
  | right {y : α} {xs ys zs : List α} (h : Interleaved xs ys zs) :
    Interleaved xs (y :: ys) (y :: zs)

namespace Interleaved
variable {α : Type}

theorem left_alone (xs : List α) : Interleaved xs [] xs := by
  induction xs with
  | nil => exact nil
  | cons x xs ih => exact left ih

theorem right_alone (ys : List α) : Interleaved [] ys ys := by
  induction ys with
  | nil => exact nil
  | cons y ys ih => exact right ih

theorem filter (p : α → Bool) {xs ys zs : List α} (h : Interleaved xs ys zs) :
    Interleaved (xs.filter p) (ys.filter p) (zs.filter p) := by
  induction h with
  | nil => exact nil
  | @left x xs ys zs _ ih =>
    cases hx : p x with
    | true => simpa [hx] using left ih
    | false => simpa [hx] using ih
  | @right y xs ys zs _ ih =>
    cases hy : p y with
    | true => simpa [hy] using right ih
    | false => simpa [hy] using ih

theorem countP_eq (p : α → Bool) {xs ys zs : List α} (h : Interleaved xs ys zs) :
    zs.countP p = xs.countP p + ys.countP p := by
  induction h with
  | nil => rfl
  | left _ ih =>
    simp only [List.countP_cons, ih]
    omega
  | right _ ih =>
    simp only [List.countP_cons, ih]
    omega

end Interleaved

open Lines LineBreaks

namespace Directive

theorem numbered_contents (n : Nat) (ls : List Bytes) :
    (numbered n ls).map content = ls.filter isDirective := by
  induction ls generalizing n with
  | nil => rfl
  | cons l ls ih =>
    cases hd : isDirective l with
    | true => simp [numbered_directive hd, hd, ih]
    | false => simp [numbered_text hd, hd, ih]

theorem place_interleaved (n : Nat) (ds : List Directive) (ls : List Bytes) :
    Interleaved (ds.map content) ls ((place n ds ls).map Placed.line) := by
  induction n, ds, ls using place.induct with
  | case1 n ds =>
    rw [place, placeTrailing_lines]
    exact Interleaved.left_alone _
  | case2 n l ls ih =>
    rw [place]
    exact Interleaved.right ih
  | case3 d ds l ls ih =>
    rw [place, if_pos rfl]
    exact Interleaved.left ih
  | case4 n d ds l ls hd ih =>
    rw [place, if_neg hd]
    exact Interleaved.right ih

end Directive

namespace LineBreaks

theorem release_filter (mode : LineBreakMode) (afterGap : Bool) (ls : List Bytes) :
    (release mode afterGap ls).filter (!isBlank ·) = ls.filter (!isGap ·) := by
  induction ls generalizing afterGap with
  | nil => rfl
  | cons l ls ih =>
    cases hb : isBlank l with
    | true => simp [release, hb, isGap, ih]
    | false =>
      cases hp : isPlaceholder l with
      | true =>
        by_cases hs : (mode = .single && afterGap) = true
        · simp [release, hb, hp, isGap, hs, ih]
        · simp [release, hb, hp, isGap, hs, isBlank_nil, ih]
      | false => simp [release, hb, hp, isGap, ih]

theorem countP_release_all (afterGap : Bool) (ls : List Bytes) :
    (release .all afterGap ls).countP isBlank = ls.countP isPlaceholder := by
  induction ls generalizing afterGap with
  | nil => rfl
  | cons l ls ih =>
    cases hp : isPlaceholder l with
    | true => simp [release, not_blank_of_isPlaceholder hp, hp, isBlank_nil, ih]
    | false => cases hb : isBlank l <;> simp [release, hb, hp, ih]

end LineBreaks

namespace Config

def returning (c : Config) (source : List Bytes) : List Bytes :=
  if c.stripDirectives then source.filter Directive.isDirective else []

/-- Whether a line has content, a placeholder having none where blank lines are kept. -/
def hasContent (c : Config) (l : Bytes) : Bool :=
  !isBlank l && !(c.lineBreakMode.isSome && isPlaceholder l)

theorem woven_interleaved (c : Config) (source ls : List Bytes) :
    Interleaved (c.returning source) ls (c.woven (Directive.recorded source) ls) := by
  unfold returning woven
  split
  · have h := Directive.place_interleaved 1 (Directive.recorded source) ls
    rwa [Directive.recorded, Directive.numbered_contents] at h
  · exact Interleaved.right_alone ls

theorem not_gap_of_mem_returning {c : Config} {source : List Bytes} {l : Bytes}
    (h : l ∈ c.returning source) : isBlank l = false ∧ isPlaceholder l = false := by
  unfold returning at h
  split at h
  · have hg := Directive.isGap_of_isDirective (List.mem_filter.mp h).2
    simpa [isGap] using hg
  · simp at h

theorem returning_filter (c : Config) (source : List Bytes) :
    (c.returning source).filter c.hasContent = c.returning source := by
  refine List.filter_eq_self.mpr fun l hl => ?_
  obtain ⟨hb, hp⟩ := not_gap_of_mem_returning hl
  simp [hasContent, hb, hp]

theorem released_filter (c : Config) (ls : List Bytes) :
    (c.released ls).filter (!isBlank ·) = ls.filter c.hasContent := by
  unfold released
  split
  · next hm => exact List.filter_congr fun l _ => by simp [hasContent, hm]
  · next mode hm =>
    rw [release_filter]
    exact List.filter_congr fun l _ => by simp [isGap, hasContent, hm]

end Config

/-- Whatever the reformat answers, a run ends with the directives and the lines of the
answer that have content, each list in its order and each line once. Blank lines are those
of the answer or, where all are kept, one for each placeholder in it. -/
theorem lines_conserved (c : Config) (hc : c.parseUnicode = false) (reformat : Reformat)
    (input : Bytes) :
    let source := split (stripReturns input)
    ∃ prepared, ((Formatter.ofConfig c reformat).prepare input).outcome = .done prepared ∧
      ∀ y, reformat prepared = .ok y → carriageReturn ∉ y →
        ∃ out, ((Formatter.ofConfig c reformat).format input).outcome = .done out ∧
          Interleaved (c.returning source) ((split y).filter c.hasContent)
            ((split out).filter (!isBlank ·)) ∧
          (c.lineBreakMode = none → (split out).countP isBlank = (split y).countP isBlank) ∧
          (c.lineBreakMode = some .all →
            (split out).countP isBlank = (split y).countP isPlaceholder) := by
  intro source
  refine ⟨c.prepared input, Formatter.prepare_outcome c reformat input, fun y hy hr => ?_⟩
  have hd : ∀ d ∈ Directive.recorded source, Bare d.content := fun d =>
    Config.recorded_content_bare
  have hsplit := c.split_restored_bare hd hr
  have hwoven := c.woven_interleaved source (split y)
  have hnone (p : Bytes → Bool) (h : ∀ l ∈ c.returning source, p l = false) :
      (c.woven (Directive.recorded source) (split y)).countP p = (split y).countP p := by
    rw [hwoven.countP_eq p, List.countP_eq_zero.mpr fun l hl => by simp [h l hl], Nat.zero_add]
  refine ⟨c.restored (Directive.recorded source) y, ?_, ?_, fun hm => ?_, fun hm => ?_⟩
  · rw [Formatter.format_of_ok hy, Config.finished, hc]
    rfl
  · have h := hwoven.filter c.hasContent
    rwa [c.returning_filter, ← c.released_filter (c.woven _ _), ← hsplit] at h
  · rw [hsplit, Config.released, hm]
    exact hnone isBlank fun l hl => (Config.not_gap_of_mem_returning hl).1
  · rw [hsplit, Config.released, hm]
    exact (countP_release_all false _).trans
      (hnone isPlaceholder fun l hl => (Config.not_gap_of_mem_returning hl).2)

theorem lines_conserved_own_directive :
    let c : Config := { lineEnding := .crlf, retainLineBreaks := true, stripDirectives := true }
    let input := Utf8.ofString "%A\n\nb\n%C"
    let prepared := Utf8.ofString "#magic___^_^___line\nb\n"
    let y := Utf8.ofString "%x\n\n  #magic___^_^___line!\n#magic___^_^___line\nb"
    let reformat : Reformat := fun _ => .ok y
    c.parseUnicode = false ∧
    ((Formatter.ofConfig c reformat).prepare input).outcome = .done prepared ∧
    reformat prepared = .ok y ∧ carriageReturn ∉ y ∧
    ∃ out, ((Formatter.ofConfig c reformat).format input).outcome = .done out ∧
      Interleaved [Utf8.ofString "%A", Utf8.ofString "%C"] [Utf8.ofString "%x", Utf8.ofString "b"]
        ((split out).filter (!isBlank ·)) ∧
      (split out).countP isBlank = 2 := by
  intro c input prepared y reformat
  have hp : ((Formatter.ofConfig c reformat).prepare input).outcome = .done prepared := by
    decide +kernel
  have hr : carriageReturn ∉ y := by decide +kernel
  obtain ⟨p, hprepare, hall⟩ := lines_conserved c rfl reformat input
  obtain rfl : p = prepared := Outcome.done.inj (hprepare.symm.trans hp)
  obtain ⟨out, hrun, hkept, -, hblank⟩ := hall y rfl hr
  have hds : c.returning (split (stripReturns input)) =
      [Utf8.ofString "%A", Utf8.ofString "%C"] := by decide +kernel
  have hls : (split y).filter c.hasContent = [Utf8.ofString "%x", Utf8.ofString "b"] := by
    decide +kernel
  have hcount : (split y).countP isPlaceholder = 2 := by decide +kernel
  rw [hds, hls] at hkept
  exact ⟨rfl, hp, rfl, hr, out, hrun, hkept, hcount ▸ hblank rfl⟩

end YamlLayout
