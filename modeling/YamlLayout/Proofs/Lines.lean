import Mathlib.Data.List.Basic
import YamlLayout.Lines

/-! Cutting a text into lines and terminating lines undo each other, for lines in
which no line feed stands. A text is taken apart line by line by `byLines`. -/
namespace YamlLayout.Lines

theorem cut_lineFeed (r : Bytes) : cut (lineFeed :: r) = [] :: cut r := by simp [cut]

theorem cut_line (l r : Bytes) (h : lineFeed ∉ l) : cut (l ++ lineFeed :: r) = l :: cut r := by
  induction l with
  | nil => exact cut_lineFeed r
  | cons b l ih =>
    have hb : b ≠ lineFeed := fun e => h (by simp [e])
    have hl : lineFeed ∉ l := fun m => h (List.mem_cons_of_mem b m)
    simp [cut, hb, ih hl]

theorem cut_last (l : Bytes) (h : lineFeed ∉ l) (hl : l ≠ []) : cut l = [l] := by
  induction l with
  | nil => exact absurd rfl hl
  | cons b l ih =>
    have hb : b ≠ lineFeed := fun e => h (by simp [e])
    have hm : lineFeed ∉ l := fun m => h (List.mem_cons_of_mem b m)
    rw [cut, if_neg hb]
    cases l with
    | nil => rfl
    | cons a l => rw [ih hm (List.cons_ne_nil a l)]

theorem cut_append {s : Bytes} (h : lineFeed ∉ s) (hs : s ≠ []) (r : Bytes) :
    cut (s ++ r) = (s ++ (cut r).headD []) :: (cut r).tail := by
  induction s with
  | nil => exact absurd rfl hs
  | cons b s ih =>
    have hb : b ≠ lineFeed := fun e => h (by simp [e])
    have hm : lineFeed ∉ s := fun m => h (List.mem_cons_of_mem b m)
    rw [List.cons_append, cut, if_neg hb]
    cases s with
    | nil => cases hr : cut r <;> simp [hr]
    | cons a s => rw [ih hm (List.cons_ne_nil a s)]; rfl

/-- Every text is empty, or one unterminated line, or a terminated line and a text. -/
@[elab_as_elim]
theorem byLines {motive : Bytes → Prop} (nil : motive [])
    (last : ∀ l, lineFeed ∉ l → l ≠ [] → motive l)
    (line : ∀ l r, lineFeed ∉ l → motive r → motive (l ++ lineFeed :: r)) (c : Bytes) :
    motive c := by
  by_cases h : lineFeed ∈ c
  · obtain ⟨l, r, e, hl⟩ := List.eq_append_cons_of_mem h
    rw [e]
    exact line l r hl (byLines nil last line r)
  · cases c with
    | nil => exact nil
    | cons b c => exact last (b :: c) h (List.cons_ne_nil b c)
termination_by c.length
decreasing_by rw [e, List.length_append, List.length_cons]; omega

theorem lineFeed_not_mem_of_mem_cut {c l : Bytes} (h : l ∈ cut c) : lineFeed ∉ l := by
  induction c using byLines with
  | nil => simp [cut] at h
  | last m hm hne =>
    rw [cut_last m hm hne, List.mem_singleton] at h
    exact h ▸ hm
  | line m r hm ih =>
    rw [cut_line m r hm, List.mem_cons] at h
    cases h with
    | inl h => exact h ▸ hm
    | inr h => exact ih h

theorem mem_of_mem_cut {c l : Bytes} {b : UInt8} (h : l ∈ cut c) (hb : b ∈ l) : b ∈ c := by
  induction c using byLines with
  | nil => simp [cut] at h
  | last m hm hne =>
    rw [cut_last m hm hne, List.mem_singleton] at h
    exact h ▸ hb
  | line m r hm ih =>
    rw [cut_line m r hm, List.mem_cons] at h
    cases h with
    | inl h => exact List.mem_append_left _ (h ▸ hb)
    | inr h => exact List.mem_append_right _ (List.mem_cons_of_mem _ (ih h))

theorem dropFinalReturn_append (l : Bytes) : dropFinalReturn (l ++ [carriageReturn]) = l := by
  simp [dropFinalReturn]

theorem dropFinalReturn_append_of_not_mem {s : Bytes} (h : carriageReturn ∉ s) (hs : s ≠ [])
    (a : Bytes) : dropFinalReturn (a ++ s) = a ++ s := by
  have hl : (a ++ s).getLast? ≠ some carriageReturn := by
    rw [List.getLast?_append_of_ne_nil a hs]
    exact fun e => h (List.mem_of_getLast? e)
  simp only [dropFinalReturn, hl, if_false]

theorem dropFinalReturn_of_not_mem {l : Bytes} (h : carriageReturn ∉ l) :
    dropFinalReturn l = l := by
  have hl : l.getLast? ≠ some carriageReturn := fun e => h (List.mem_of_getLast? e)
  simp [dropFinalReturn, hl]

theorem dropFinalReturn_cases (l : Bytes) :
    dropFinalReturn l = l ∨ l = dropFinalReturn l ++ [carriageReturn] := by
  by_cases h : l.getLast? = some carriageReturn
  · obtain ⟨m, rfl⟩ := List.getLast?_eq_some_iff.mp h
    exact Or.inr (by rw [dropFinalReturn_append])
  · exact Or.inl (by simp [dropFinalReturn, h])

theorem mem_of_mem_dropFinalReturn {l : Bytes} {b : UInt8} (h : b ∈ dropFinalReturn l) :
    b ∈ l := by
  cases dropFinalReturn_cases l with
  | inl e => exact e ▸ h
  | inr e =>
    rw [e]
    exact List.mem_append_left _ h

theorem split_line (l r : Bytes) (h : lineFeed ∉ l) :
    split (l ++ lineFeed :: r) = dropFinalReturn l :: split r := by
  simp [split, cut_line l r h]

/-- A carriage return more at the end of a line is a part of its end. -/
theorem split_line_return (l r : Bytes) (h : lineFeed ∉ l) :
    split ((l ++ [carriageReturn]) ++ lineFeed :: r) = l :: split r := by
  have hf : lineFeed ∉ l ++ [carriageReturn] := by simpa [lineFeed, carriageReturn] using h
  rw [split_line _ r hf, dropFinalReturn_append]

theorem not_mem_line {b : UInt8} {l r : Bytes} (h : b ∉ l ++ lineFeed :: r) : b ∉ l ∧ b ∉ r :=
  ⟨fun m => h (List.mem_append_left _ m),
    fun m => h (List.mem_append_right _ (List.mem_cons_of_mem _ m))⟩

theorem mem_of_mem_split {c l : Bytes} {b : UInt8} (h : l ∈ split c) (hb : b ∈ l) : b ∈ c := by
  obtain ⟨m, hm, rfl⟩ := List.mem_map.mp h
  exact mem_of_mem_cut hm (mem_of_mem_dropFinalReturn hb)

theorem lineFeed_not_mem_of_mem_split {c l : Bytes} (h : l ∈ split c) : lineFeed ∉ l := by
  obtain ⟨m, hm, rfl⟩ := List.mem_map.mp h
  exact fun hf => lineFeed_not_mem_of_mem_cut hm (mem_of_mem_dropFinalReturn hf)

theorem terminate_cons (separator l : Bytes) (ls : List Bytes) :
    terminate separator (l :: ls) = l ++ (separator ++ terminate separator ls) := by
  simp [terminate]

theorem split_terminate_feed (ls : List Bytes) (h : ∀ l ∈ ls, lineFeed ∉ l) :
    split (terminate [lineFeed] ls) = ls.map dropFinalReturn := by
  induction ls with
  | nil => rfl
  | cons l ls ih =>
    have hl : lineFeed ∉ l := h l List.mem_cons_self
    have hr := ih fun m hm => h m (List.mem_cons_of_mem l hm)
    rw [terminate_cons, List.singleton_append, split_line l _ hl, hr, List.map_cons]

theorem split_terminate_return (ls : List Bytes) (h : ∀ l ∈ ls, lineFeed ∉ l) :
    split (terminate [carriageReturn, lineFeed] ls) = ls := by
  induction ls with
  | nil => rfl
  | cons l ls ih =>
    have hl : lineFeed ∉ l := h l List.mem_cons_self
    have hr := ih fun m hm => h m (List.mem_cons_of_mem l hm)
    have hc := split_line_return l (terminate [carriageReturn, lineFeed] ls) hl
    rw [hr] at hc
    rw [terminate_cons]
    simpa using hc

/-- What a line of the program's own texts looks like. -/
structure Bare (l : Bytes) : Prop where
  no_feed : lineFeed ∉ l
  no_return : carriageReturn ∉ l

theorem bare_of_mem_split {c l : Bytes} (hc : carriageReturn ∉ c) (h : l ∈ split c) : Bare l :=
  ⟨lineFeed_not_mem_of_mem_split h, fun hm => hc (mem_of_mem_split h hm)⟩

theorem bare_nil : Bare [] := ⟨by simp, by simp⟩

theorem split_terminate_feed_bare {ls : List Bytes} (h : ∀ l ∈ ls, Bare l) :
    split (terminate [lineFeed] ls) = ls := by
  have hm : ls.map dropFinalReturn = ls.map id :=
    List.map_congr_left fun l hl => dropFinalReturn_of_not_mem (h l hl).no_return
  rw [split_terminate_feed ls fun l hl => (h l hl).no_feed, hm, List.map_id]

theorem carriageReturn_not_mem_terminate_feed {ls : List Bytes} (h : ∀ l ∈ ls, Bare l) :
    carriageReturn ∉ terminate [lineFeed] ls := by
  intro hm
  obtain ⟨l, hl, hb⟩ := List.mem_flatMap.mp hm
  cases List.mem_append.mp hb with
  | inl hb => exact (h l hl).no_return hb
  | inr hb => exact absurd (List.mem_singleton.mp hb) (by decide)

/-- A text whose last line has its end, too. -/
def Terminated (c : Bytes) : Prop := c = [] ∨ c.getLast? = some lineFeed

instance (c : Bytes) : Decidable (Terminated c) := inferInstanceAs (Decidable (_ ∨ _))

theorem Terminated.rest {l r : Bytes} (h : Terminated (l ++ lineFeed :: r)) : Terminated r := by
  cases r with
  | nil => exact Or.inl rfl
  | cons b r =>
    have hl := h.resolve_left (by simp)
    rw [List.getLast?_append_of_ne_nil l (by simp), List.getLast?_cons_cons] at hl
    exact Or.inr hl

theorem not_terminated_of_not_mem {l : Bytes} (h : lineFeed ∉ l) (hne : l ≠ []) :
    ¬ Terminated l := fun ht => h (List.mem_of_getLast? (ht.resolve_left hne))

theorem terminated_line_iff (l r : Bytes) : Terminated (l ++ lineFeed :: r) ↔ Terminated r := by
  refine ⟨Terminated.rest, fun h => Or.inr ?_⟩
  rw [List.getLast?_append_of_ne_nil l (by simp)]
  cases r with
  | nil => rfl
  | cons b r => exact List.getLast?_cons_cons.trans (h.resolve_left (by simp))

theorem terminate_split_eq {c : Bytes} (hr : carriageReturn ∉ c) :
    terminate [lineFeed] (split c) = c ++ if Terminated c then [] else [lineFeed] := by
  induction c using byLines with
  | nil => rfl
  | last l hl hne =>
    rw [if_neg (not_terminated_of_not_mem hl hne), split, cut_last l hl hne, List.map_singleton,
      dropFinalReturn_of_not_mem hr]
    exact List.flatMap_singleton ..
  | line l r hl ih =>
    obtain ⟨hlr, hrr⟩ := not_mem_line hr
    rw [split_line l r hl, dropFinalReturn_of_not_mem hlr, terminate_cons, ih hrr]
    simp only [terminated_line_iff, List.append_assoc, List.cons_append, List.nil_append]

theorem terminate_split {c : Bytes} (hr : carriageReturn ∉ c) (h : Terminated c) :
    terminate [lineFeed] (split c) = c := by
  rw [terminate_split_eq hr, if_pos h, List.append_nil]

end YamlLayout.Lines
