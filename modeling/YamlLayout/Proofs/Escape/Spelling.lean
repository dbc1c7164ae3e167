import Mathlib.Data.List.Forall2
import YamlLayout.Proofs.Escape.Decoding
import YamlLayout.Proofs.LineBreaks

/-! A text written with some of its characters beyond the basic plane as escapes. Such
characters and their escapes hold no byte that a line is cut at, judged by or indented
with, so both texts have the same lines, of the same kinds; and decoding gives back the
text. -/
namespace YamlLayout.Escape
open Utf8 Lines LineBreaks

/-- Encoded characters, those beyond the basic plane as escapes where they are chosen. -/
def spell (chosen : Nat → Bool) (cs : List Char) : Bytes :=
  cs.zipIdx.flatMap fun p =>
    if chosen p.2 ∧ 0xFFFF < p.1.toNat then escapeOf p.1 else encode p.1

/-- A token that is no escape for a character of the basic plane. -/
def Token.Far : Token → Prop
  | plain _ _ => True
  | escape _ c _ _ => 0xFFFF < c.toNat

/-- The first text writes the second, with escapes for some characters beyond the basic
plane and no backslash besides. -/
inductive Spells : Bytes → Bytes → Prop where
  | nil : Spells [] []
  | token {t : Token} {w x : Bytes} (ht : t.Far) (h : Spells w x) :
    Spells (t.source ++ w) (t.output ++ x)

theorem Spells.tokens {w x : Bytes} (h : Spells w x) :
    ∃ ts, sources ts = w ∧ outputs ts = x := by
  induction h with
  | nil => exact ⟨[], rfl, rfl⟩
  | @token t w x _ _ ih =>
    obtain ⟨ts, rfl, rfl⟩ := ih
    exact ⟨t :: ts, rfl, rfl⟩

theorem Spells.decode {w x : Bytes} (h : Spells w x) : decode w = .ok x := by
  obtain ⟨ts, rfl, rfl⟩ := h.tokens
  exact decode_sources ts

theorem Spells.append {w x v y : Bytes} (h : Spells w x) (h' : Spells v y) :
    Spells (w ++ v) (x ++ y) := by
  induction h with
  | nil => exact h'
  | token ht _ ih =>
    rw [List.append_assoc, List.append_assoc]
    exact token ht ih

theorem Token.Far.spells {t : Token} (h : t.Far) : Spells t.source t.output := by
  simpa using Spells.token h Spells.nil

theorem Spells.refl {l : Bytes} (h : lead ∉ l) : Spells l l := by
  induction l with
  | nil => exact nil
  | cons b l ih =>
    have hb : b ≠ lead := fun e => h (by simp [e])
    have hl : lead ∉ l := fun m => h (List.mem_cons_of_mem b m)
    exact token (t := .plain b hb) trivial (ih hl)

def signs : Bytes := lead :: marker :: upperDigits

/-- A byte that neither an escape nor a character beyond the basic plane has in it. -/
def Foreign (b : UInt8) : Prop := b.toNat < 0x80 ∧ b ∉ signs

instance (b : UInt8) : Decidable (Foreign b) := inferInstanceAs (Decidable (_ ∧ _))

theorem foreign_lineFeed : Foreign lineFeed := by decide
theorem foreign_carriageReturn : Foreign carriageReturn := by decide
theorem foreign_space : Foreign space := by decide
theorem foreign_placeholder : ∀ b ∈ placeholder, Foreign b := by decide +kernel

theorem Token.Far.foreign {t : Token} (h : t.Far) {b : UInt8} (hb : Foreign b) :
    (t.source = [b] ∧ t.output = [b]) ∨ (b ∉ t.source ∧ b ∉ t.output) := by
  cases t with
  | plain a ha =>
    by_cases hab : a = b
    · exact Or.inl ⟨by rw [← hab]; rfl, by rw [← hab]; rfl⟩
    · have hba : b ∉ [a] := by simpa using Ne.symm hab
      exact Or.inr ⟨hba, hba⟩
  | escape ds c hd hc =>
    refine Or.inr ⟨fun hm => hb.2 ?_, fun hm => ?_⟩
    · have hds : ∀ d ∈ ds, d ∈ upperDigits := fun d hm => by
        simpa [isDigit] using hd.upper d hm
      exact List.cons_subset_cons lead (List.cons_subset_cons marker hds) hm
    · have hlow := toNat_of_ascii_mem hm hb.1
      have hfar : 0xFFFF < c.toNat := h
      have := hb.1
      omega

theorem Spells.cut {w x : Bytes} (h : Spells w x) : List.Forall₂ Spells (cut w) (cut x) := by
  induction h with
  | nil => exact List.Forall₂.nil
  | @token t w x ht _ ih =>
    obtain ⟨hs, ho⟩ | ⟨hs, ho⟩ := ht.foreign foreign_lineFeed
    · rw [hs, ho, List.singleton_append, List.singleton_append, cut_lineFeed, cut_lineFeed]
      exact List.Forall₂.cons nil ih
    · rw [cut_append hs t.source_ne_nil, cut_append ho t.output_ne_nil]
      generalize Lines.cut w = ls at ih ⊢
      generalize Lines.cut x = ms at ih ⊢
      cases ih with
      | nil => exact List.Forall₂.cons (ht.spells.append nil) List.Forall₂.nil
      | cons hlm hr => exact List.Forall₂.cons (ht.spells.append hlm) hr

theorem Spells.last {w x : Bytes} (h : Spells w x) : (w = [] ∧ x = []) ∨
    ∃ (t : Token) (v y : Bytes), t.Far ∧ Spells v y ∧ w = v ++ t.source ∧ x = y ++ t.output := by
  induction h with
  | nil => exact Or.inl ⟨rfl, rfl⟩
  | @token t w x ht _ ih =>
    obtain ⟨rfl, rfl⟩ | ⟨u, v, y, hu, hvy, rfl, rfl⟩ := ih
    · exact Or.inr ⟨t, [], [], ht, nil, by simp, by simp⟩
    · exact Or.inr ⟨u, t.source ++ v, t.output ++ y, hu, token ht hvy, by simp, by simp⟩

theorem Spells.dropFinalReturn {w x : Bytes} (h : Spells w x) :
    Spells (dropFinalReturn w) (dropFinalReturn x) := by
  obtain ⟨rfl, rfl⟩ | ⟨t, v, y, ht, hvy, rfl, rfl⟩ := h.last
  · exact nil
  · obtain ⟨hs, ho⟩ | ⟨hs, ho⟩ := ht.foreign foreign_carriageReturn
    · rwa [hs, ho, dropFinalReturn_append, dropFinalReturn_append]
    · rw [dropFinalReturn_append_of_not_mem hs t.source_ne_nil,
        dropFinalReturn_append_of_not_mem ho t.output_ne_nil]
      exact hvy.append ht.spells

theorem Spells.split {w x : Bytes} (h : Spells w x) :
    List.Forall₂ Spells (split w) (split x) :=
  List.forall₂_map_left_iff.mpr (List.forall₂_map_right_iff.mpr
    (h.cut.imp fun _ _ hlm => hlm.dropFinalReturn))

theorem trimIndent_append {s : Bytes} (h : space ∉ s) (hs : s ≠ []) (r : Bytes) :
    trimIndent (s ++ r) = s ++ r := by
  cases s with
  | nil => exact absurd rfl hs
  | cons b s =>
    have hb : b ≠ space := fun e => h (by simp [e])
    simp [trimIndent, hb]

theorem Spells.trimIndent {w x : Bytes} (h : Spells w x) :
    Spells (trimIndent w) (trimIndent x) := by
  induction h with
  | nil => exact nil
  | @token t w x ht hwx ih =>
    obtain ⟨hs, ho⟩ | ⟨hs, ho⟩ := ht.foreign foreign_space
    · simpa [Lines.trimIndent, hs, ho] using ih
    · rw [trimIndent_append hs t.source_ne_nil, trimIndent_append ho t.output_ne_nil]
      exact token ht hwx

theorem Spells.isPrefixOf {w x : Bytes} (h : Spells w x) {p : Bytes}
    (hp : ∀ b ∈ p, Foreign b) : p.isPrefixOf w = p.isPrefixOf x := by
  induction h generalizing p with
  | nil => rfl
  | @token t w x ht _ ih =>
    cases p with
    | nil => rfl
    | cons b p =>
      have hr := ih fun a ha => hp a (List.mem_cons_of_mem b ha)
      have hne {s : Bytes} (hs : b ∉ s) (hn : s ≠ []) (r : Bytes) :
          (b :: p).isPrefixOf (s ++ r) = false := by
        cases s with
        | nil => exact absurd rfl hn
        | cons a s =>
          have hba : b ≠ a := fun e => hs (by simp [e])
          simp [List.isPrefixOf, hba]
      obtain ⟨hs, ho⟩ | ⟨hs, ho⟩ := ht.foreign (hp b List.mem_cons_self)
      · simpa [hs, ho, List.isPrefixOf] using hr
      · rw [hne hs t.source_ne_nil, hne ho t.output_ne_nil]

theorem Spells.isPlaceholder {w x : Bytes} (h : Spells w x) :
    isPlaceholder w = isPlaceholder x :=
  h.trimIndent.isPrefixOf foreign_placeholder

/-- Either nothing is escaped, or both texts have a byte that no blank line has. -/
theorem Spells.eq_or_far {w x : Bytes} (h : Spells w x) :
    w = x ∨ (lead ∈ w ∧ ∃ c : Char, 0xFFFF < c.toNat ∧ encode c ⊆ x) := by
  induction h with
  | nil => exact Or.inl rfl
  | @token t w x ht _ ih =>
    cases t with
    | plain b hb =>
      obtain rfl | ⟨hw, c, hc, hx⟩ := ih
      · exact Or.inl rfl
      · exact Or.inr ⟨List.mem_append_right _ hw, c, hc, List.subset_append_of_subset_right _ hx⟩
    | escape ds c hd hc =>
      exact Or.inr ⟨List.mem_cons_self, c, ht, List.subset_append_left _ x⟩

theorem Spells.isBlank {w x : Bytes} (h : Spells w x) : isBlank w = isBlank x := by
  obtain rfl | ⟨hw, c, hc, hx⟩ := h.eq_or_far
  · rfl
  · rw [not_blank_of_far hc hx]
    by_contra hb
    exact absurd (isWhiteSpace_of_mem_isBlank (by simpa using hb) hw (by decide)) (by decide)

theorem Spells.insertReturns {w x : Bytes} (h : Spells w x) :
    Spells (insertReturns w) (insertReturns x) := by
  induction h with
  | nil => exact nil
  | @token t w x ht _ ih =>
    rw [insertReturns_append, insertReturns_append]
    refine append ?_ ih
    obtain ⟨hs, ho⟩ | ⟨hs, ho⟩ := ht.foreign foreign_lineFeed
    · rw [hs, ho]
      exact refl (by decide)
    · rw [insertReturns_of_not_mem hs, insertReturns_of_not_mem ho]
      exact ht.spells

theorem Spells.write (e : LineEnding) {w x : Bytes} (h : Spells w x) :
    Spells (e.write w) (e.write x) := by
  cases e with
  | lf => exact h
  | crlf => exact h.insertReturns

theorem lead_not_mem_separator (e : LineEnding) : lead ∉ e.separator := by
  cases e <;> decide

theorem spells_terminate (e : LineEnding) {ws xs : List Bytes} (h : List.Forall₂ Spells ws xs) :
    Spells (terminate e.separator ws) (terminate e.separator xs) := by
  induction h with
  | nil => exact Spells.nil
  | cons hwx _ ih =>
    rw [terminate_cons, terminate_cons]
    exact hwx.append ((Spells.refl (lead_not_mem_separator e)).append ih)

theorem lead_not_mem_encode {c : Char} (h : c ≠ '\\') : lead ∉ encode c :=
  fun hm => h (Char.toNat_inj.mp (toNat_of_ascii_mem hm (by decide)))

theorem spells_char (b : Bool) {c : Char} (h : c ≠ '\\') :
    Spells (if b ∧ 0xFFFF < c.toNat then escapeOf c else encode c) (encode c) := by
  split
  · next hc =>
    obtain ⟨ds, hd, hn⟩ := exists_eightDigits c
    have ht : (Token.escape ds c hd hn).Far := hc.2
    exact escapeOf_number hd hn ▸ ht.spells
  · exact Spells.refl (lead_not_mem_encode h)

theorem spells_spell (chosen : Nat → Bool) {cs : List Char} (h : '\\' ∉ cs) :
    Spells (spell chosen cs) (encodeAll cs) := by
  have hgen (n : Nat) : Spells ((cs.zipIdx n).flatMap fun p =>
      if chosen p.2 ∧ 0xFFFF < p.1.toNat then escapeOf p.1 else encode p.1) (encodeAll cs) := by
    induction cs generalizing n with
    | nil => exact Spells.nil
    | cons c cs ih =>
      have hc : c ≠ '\\' := fun e => h (by simp [e])
      have hcs : '\\' ∉ cs := fun m => h (List.mem_cons_of_mem c m)
      exact (spells_char (chosen n) hc).append (ih hcs (n + 1))
  exact hgen 0

end YamlLayout.Escape
