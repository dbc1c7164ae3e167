import YamlLayout.LineEnding
import YamlLayout.Proofs.Text.Blank

/-! Carriage returns put in before line feeds are seen by no later reading of lines:
a text keeps its lines, their number and which of them are blank. -/
namespace YamlLayout
open Lines

theorem carriageReturn_not_mem_stripReturns (c : Bytes) : carriageReturn ∉ stripReturns c := by
  simp [stripReturns]

theorem stripReturns_of_not_mem {c : Bytes} (h : carriageReturn ∉ c) : stripReturns c = c := by
  refine List.filter_eq_self.mpr fun b hb => ?_
  have hne : b ≠ carriageReturn := fun e => h (e ▸ hb)
  simpa using hne

theorem insertReturns_append (a b : Bytes) :
    insertReturns (a ++ b) = insertReturns a ++ insertReturns b := by
  simp [insertReturns]

theorem stripReturns_append (a b : Bytes) :
    stripReturns (a ++ b) = stripReturns a ++ stripReturns b := List.filter_append a b

theorem stripReturns_insertReturns (c : Bytes) :
    stripReturns (insertReturns c) = stripReturns c := by
  induction c with
  | nil => rfl
  | cons b c ih =>
    have hb : stripReturns (if b = lineFeed then [carriageReturn, b] else [b]) =
        stripReturns [b] := by
      split
      · next h =>
        rw [h]
        rfl
      · rfl
    change stripReturns ((if b = lineFeed then [carriageReturn, b] else [b]) ++
      insertReturns c) = _
    rw [stripReturns_append, hb, ih, ← stripReturns_append]
    rfl

theorem insertReturns_of_not_mem {l : Bytes} (h : lineFeed ∉ l) : insertReturns l = l := by
  induction l with
  | nil => rfl
  | cons b l ih =>
    have hb : b ≠ lineFeed := fun e => h (by simp [e])
    have hl := ih fun m => h (List.mem_cons_of_mem b m)
    change (if b = lineFeed then [carriageReturn, b] else [b]) ++ insertReturns l = b :: l
    rw [if_neg hb, hl]
    rfl

theorem insertReturns_line (l r : Bytes) (h : lineFeed ∉ l) :
    insertReturns (l ++ lineFeed :: r) =
      (l ++ [carriageReturn]) ++ lineFeed :: insertReturns r := by
  rw [insertReturns_append, insertReturns_of_not_mem h]
  simp [insertReturns]

theorem insertReturns_terminate (ls : List Bytes) (h : ∀ l ∈ ls, lineFeed ∉ l) :
    insertReturns (terminate [lineFeed] ls) = terminate [carriageReturn, lineFeed] ls := by
  induction ls with
  | nil => rfl
  | cons l ls ih =>
    have hl : lineFeed ∉ l := h l List.mem_cons_self
    have hr := ih fun m hm => h m (List.mem_cons_of_mem l hm)
    rw [terminate_cons, List.singleton_append, insertReturns_line l _ hl, hr, terminate_cons]
    simp

theorem split_insertReturns {c : Bytes} (h : carriageReturn ∉ c) :
    split (insertReturns c) = split c := by
  induction c using byLines with
  | nil => rfl
  | last l hl hne => rw [insertReturns_of_not_mem hl]
  | line l r hl ih =>
    obtain ⟨hlr, hrr⟩ := not_mem_line h
    rw [insertReturns_line l r hl, split_line_return l _ hl, split_line l r hl,
      dropFinalReturn_of_not_mem hlr, ih hrr]

/-- Carriage returns of the text itself may stay at the end of its lines. -/
theorem map_isBlank_split_insertReturns (c : Bytes) :
    (split (insertReturns c)).map isBlank = (split c).map isBlank := by
  induction c using byLines with
  | nil => rfl
  | last l hl hne => rw [insertReturns_of_not_mem hl]
  | line l r hl ih =>
    rw [insertReturns_line l r hl, split_line_return l _ hl, split_line l r hl, List.map_cons,
      List.map_cons, ih, isBlank_dropFinalReturn]

namespace LineEnding

/-- A line as it reads after it was terminated. -/
def reread : LineEnding → Bytes → Bytes
  | lf, l => dropFinalReturn l
  | crlf, l => l

theorem write_terminate (e : LineEnding) {ls : List Bytes} (h : ∀ l ∈ ls, lineFeed ∉ l) :
    e.write (terminate [lineFeed] ls) = terminate e.separator ls := by
  cases e with
  | lf => rfl
  | crlf => exact insertReturns_terminate ls h

theorem split_terminate (e : LineEnding) {ls : List Bytes} (h : ∀ l ∈ ls, lineFeed ∉ l) :
    split (terminate e.separator ls) = ls.map e.reread := by
  cases e with
  | lf => exact split_terminate_feed ls h
  | crlf =>
    have hm : ls.map crlf.reread = ls := List.map_id ls
    rw [hm]
    exact split_terminate_return ls h

theorem reread_of_not_mem (e : LineEnding) {l : Bytes} (h : carriageReturn ∉ l) :
    e.reread l = l := by
  cases e with
  | lf => exact dropFinalReturn_of_not_mem h
  | crlf => rfl

theorem isBlank_reread (e : LineEnding) (l : Bytes) : isBlank (e.reread l) = isBlank l := by
  cases e with
  | lf => exact isBlank_dropFinalReturn l
  | crlf => rfl

theorem mem_of_mem_reread (e : LineEnding) {l : Bytes} {b : UInt8} (h : b ∈ e.reread l) :
    b ∈ l := by
  cases e with
  | lf => exact mem_of_mem_dropFinalReturn h
  | crlf => exact h

theorem split_terminate_bare (e : LineEnding) {ls : List Bytes} (h : ∀ l ∈ ls, Bare l) :
    split (terminate e.separator ls) = ls := by
  cases e with
  | lf => exact split_terminate_feed_bare h
  | crlf => exact split_terminate_return ls fun l hl => (h l hl).no_feed

theorem split_write (e : LineEnding) {c : Bytes} (h : carriageReturn ∉ c) :
    split (e.write c) = split c := by
  cases e with
  | lf => rfl
  | crlf => exact split_insertReturns h

theorem map_isBlank_split_write (e : LineEnding) (c : Bytes) :
    (split (e.write c)).map isBlank = (split c).map isBlank := by
  cases e with
  | lf => rfl
  | crlf => exact map_isBlank_split_insertReturns c

theorem stripReturns_write (e : LineEnding) (c : Bytes) :
    stripReturns (e.write c) = stripReturns c := by
  cases e with
  | lf => rfl
  | crlf => exact stripReturns_insertReturns c

theorem split_stripReturns_terminate (e : LineEnding) {ls : List Bytes} (h : ∀ l ∈ ls, Bare l) :
    split (stripReturns (terminate e.separator ls)) = ls := by
  rw [← e.write_terminate fun l hl => (h l hl).no_feed, e.stripReturns_write,
    stripReturns_of_not_mem (carriageReturn_not_mem_terminate_feed h), split_terminate_feed_bare h]

theorem length_split_write (e : LineEnding) (c : Bytes) :
    (split (e.write c)).length = (split c).length := by
  simpa using congrArg List.length (e.map_isBlank_split_write c)

end LineEnding
end YamlLayout
