import YamlLayout.Proofs.Directive
import YamlLayout.Proofs.Outcome

/-! The two phases of a configured formatter on lines: the text that the reformat is given is cut
into lines where some feature cuts it, and a reformatted text leaves with its directives among its
lines and with its blank lines settled. -/
namespace YamlLayout.Config
open Lines LineBreaks

def keptLines (c : Config) (ls : List Bytes) : List Bytes :=
  if c.stripDirectives then ls.filter (!Directive.isDirective ·) else ls

/-- The lines of a text with the directives among them again. -/
def woven (c : Config) (directives : List Directive) (ls : List Bytes) : List Bytes :=
  if c.stripDirectives then (Directive.place 1 directives ls).map Directive.Placed.line else ls

theorem forall_woven {P : Bytes → Prop} (c : Config) {directives : List Directive}
    {ls : List Bytes} (hd : ∀ d ∈ directives, P d.content) (hl : ∀ l ∈ ls, P l) :
    ∀ l ∈ c.woven directives ls, P l := by
  unfold woven
  split
  · exact Directive.forall_place hd hl 1
  · exact hl

theorem woven_keptLines (c : Config) (ls : List Bytes) :
    c.woven (Directive.recorded ls) (c.keptLines ls) = ls := by
  unfold woven keptLines
  split
  · exact Directive.place_numbered 1 ls
  · rfl

theorem woven_forall₂ {R : Bytes → Bytes → Prop} (c : Config) {directives : List Directive}
    (hd : ∀ d ∈ directives, R d.content d.content) {ls ms : List Bytes}
    (h : List.Forall₂ R ls ms) :
    List.Forall₂ R (c.woven directives ls) (c.woven directives ms) := by
  unfold woven
  split
  · exact Directive.place_forall₂ hd 1 h
  · exact h

theorem placed_of_strip {c : Config} (hs : c.stripDirectives = true)
    (directives : List Directive) (reformatted : Bytes) :
    c.placed directives reformatted = terminate c.lineEnding.separator
      (c.woven directives (split (c.lineEnding.write reformatted))) := by
  simp [placed, woven, hs, Directive.restore, Directive.placed]

theorem placed_of_not_strip {c : Config} (hs : c.stripDirectives = false)
    (directives : List Directive) (reformatted : Bytes) :
    c.placed directives reformatted = c.lineEnding.write reformatted := by
  simp [placed, hs]

theorem placed_terminate (c : Config) (directives : List Directive) {ls : List Bytes}
    (h : ∀ l ∈ ls, Bare l) :
    c.placed directives (terminate [lineFeed] ls) =
      terminate c.lineEnding.separator (c.woven directives ls) := by
  have hw := c.lineEnding.write_terminate fun l hl => (h l hl).no_feed
  cases hs : c.stripDirectives with
  | true => rw [placed_of_strip hs, hw, c.lineEnding.split_terminate_bare h]
  | false =>
    rw [placed_of_not_strip hs, hw]
    simp [woven, hs]

theorem restored_none {c : Config} (hm : c.lineBreakMode = none) (directives : List Directive)
    (y : Bytes) : c.restored directives y = c.placed directives y := by
  rw [restored, hm]

theorem restored_some {c : Config} {mode : LineBreakMode} (hm : c.lineBreakMode = some mode)
    (directives : List Directive) (y : Bytes) :
    c.restored directives y = terminate c.lineEnding.separator
      (release mode false (split (c.placed directives y))) := by
  rw [restored, hm]
  rfl

def released (c : Config) (ls : List Bytes) : List Bytes :=
  match c.lineBreakMode with
  | none => ls
  | some mode => release mode false ls

/-- Read back by lines, a text without carriage returns passes the after phase as lines. -/
theorem split_restored_bare (c : Config) {directives : List Directive}
    (hd : ∀ d ∈ directives, Bare d.content) {y : Bytes} (hy : carriageReturn ∉ y) :
    split (c.restored directives y) = c.released (c.woven directives (split y)) := by
  have hw : ∀ l ∈ c.woven directives (split y), Bare l :=
    c.forall_woven hd fun l => bare_of_mem_split hy
  have hp : split (c.placed directives y) = c.woven directives (split y) := by
    cases hs : c.stripDirectives with
    | true =>
      rw [placed_of_strip hs, c.lineEnding.split_write hy, c.lineEnding.split_terminate_bare hw]
    | false =>
      rw [placed_of_not_strip hs, c.lineEnding.split_write hy]
      simp [woven, hs]
  cases hm : c.lineBreakMode with
  | none => simp only [restored_none hm, released, hm, hp]
  | some mode =>
    simp only [restored_some hm, released, hm, hp]
    exact c.lineEnding.split_terminate_bare (release_bare mode hw)

def preparedLines (c : Config) (ls : List Bytes) : List Bytes :=
  if c.lineBreakMode.isSome then (hold {} (c.keptLines ls)).map Held.line else c.keptLines ls

theorem mem_of_mem_keptLines {c : Config} {ls : List Bytes} {l : Bytes}
    (h : l ∈ c.keptLines ls) : l ∈ ls := by
  unfold keptLines at h
  split at h
  · exact List.mem_of_mem_filter h
  · exact h

theorem forall_preparedLines (c : Config) {P : Bytes → Prop} (hgap : ∀ p, P (Held.gap p).line)
    {ls : List Bytes} (h : ∀ l ∈ ls, P l) : ∀ l ∈ c.preparedLines ls, P l := by
  have hk : ∀ l ∈ c.keptLines ls, P l := fun l hl => h l (mem_of_mem_keptLines hl)
  unfold preparedLines
  split
  · exact forall_hold hgap {} fun l hl _ => hk l hl
  · exact hk

theorem preparedLines_bare (c : Config) {ls : List Bytes} (h : ∀ l ∈ ls, Bare l) :
    ∀ l ∈ c.preparedLines ls, Bare l := c.forall_preparedLines bare_gap h

theorem length_preparedLines (c : Config) (ls : List Bytes) :
    (c.preparedLines ls).length = (c.keptLines ls).length := by
  unfold preparedLines
  split
  · exact (hold_sameText {} (c.keptLines ls)).length_eq.symm
  · rfl

theorem bare_of_mem_source {input l : Bytes} (h : l ∈ split (stripReturns input)) : Bare l :=
  bare_of_mem_split (carriageReturn_not_mem_stripReturns input) h

theorem recorded_content_bare {input : Bytes} {d : Directive}
    (h : d ∈ Directive.recorded (split (stripReturns input))) : Bare d.content :=
  bare_of_mem_source (Directive.content_mem_of_mem_numbered h)

theorem lines_or_neither (c : Config) :
    (c.stripDirectives = true ∨ c.lineBreakMode.isSome = true) ∨
      c.stripDirectives = false ∧ c.lineBreakMode = none := by
  cases c.stripDirectives with
  | true => exact Or.inl (Or.inl rfl)
  | false =>
    cases c.lineBreakMode with
    | none => exact Or.inr ⟨rfl, rfl⟩
    | some mode => exact Or.inl (Or.inr rfl)

theorem prepared_of_lines {c : Config} (h : c.stripDirectives = true ∨ c.lineBreakMode.isSome)
    (input : Bytes) :
    c.prepared input = terminate [lineFeed] (c.preparedLines (split (stripReturns input))) := by
  have hb : ∀ l ∈ c.keptLines (split (stripReturns input)), Bare l :=
    fun l hl => bare_of_mem_source (mem_of_mem_keptLines hl)
  have hsep := split_terminate_feed_bare hb
  cases hs : c.stripDirectives with
  | true =>
    simp only [keptLines, hs, if_true] at hsep
    cases hm : c.lineBreakMode with
    | none => simp [prepared, preparedLines, keptLines, hs, hm, Directive.strip]
    | some mode =>
      simp only [prepared, preparedLines, keptLines, hs, hm, Directive.strip, replace, held,
        Option.isSome_some, if_true, hsep]
  | false =>
    cases h with
    | inl h => exact absurd (h.symm.trans hs) (by simp)
    | inr h => simp [prepared, preparedLines, keptLines, hs, h, replace, held]

theorem prepared_of_neither {c : Config} (hs : c.stripDirectives = false)
    (hm : c.lineBreakMode = none) (input : Bytes) : c.prepared input = stripReturns input := by
  simp [prepared, hs, hm]

end YamlLayout.Config
