import YamlLayout.LineEnding
import YamlLayout.Proofs.Lines

/-! Lines joined to a text, each with either terminator, and the text cut into lines again. Cutting
finds the lines that were joined; of any text it finds one line for each line feed and one more
where the last line has no end, and a line feed divides what is found before it from what is found
behind it. -/
namespace YamlLayout.Lines

/-- A line none of whose bytes could be taken for a part of its end. -/
structure Endable (l : Bytes) : Prop where
  no_feed : lineFeed ∉ l
  no_final_return : l.getLast? ≠ some carriageReturn

def join (ls : List (Bytes × LineEnding)) : Bytes := ls.flatMap fun (l, e) => l ++ e.separator

theorem Endable.dropFinalReturn_eq {l : Bytes} (h : Endable l) : dropFinalReturn l = l :=
  if_neg h.no_final_return

theorem Endable.split_terminated {l : Bytes} (h : Endable l) (e : LineEnding) (r : Bytes) :
    split (l ++ e.separator ++ r) = l :: split r := by
  rw [List.append_assoc]
  cases e with
  | lf => exact (split_line l r h.no_feed).trans (by rw [h.dropFinalReturn_eq])
  | crlf =>
    have hline := split_line_return l r h.no_feed
    rwa [List.append_assoc] at hline

theorem Endable.split_last {l : Bytes} (h : Endable l) (hne : l ≠ []) : split l = [l] := by
  rw [split, cut_last l h.no_feed hne, List.map_singleton, h.dropFinalReturn_eq]

theorem split_join_append {ls : List (Bytes × LineEnding)} (h : ∀ p ∈ ls, Endable p.1)
    (r : Bytes) : split (join ls ++ r) = ls.map Prod.fst ++ split r := by
  induction ls with
  | nil => rfl
  | cons p ls ih =>
    obtain ⟨hp, hls⟩ := List.forall_mem_cons.mp h
    have hsplit : join (p :: ls) ++ r = p.1 ++ p.2.separator ++ (join ls ++ r) := by
      simp [join]
    rw [hsplit, hp.split_terminated, ih hls]
    rfl

theorem Terminated.split_append {a : Bytes} (h : Terminated a) (b : Bytes) :
    split (a ++ b) = split a ++ split b := by
  induction a using byLines with
  | nil => rfl
  | last l hl hne => exact absurd h (not_terminated_of_not_mem hl hne)
  | line l r hl ih =>
    rw [List.append_assoc, List.cons_append, split_line l _ hl, ih h.rest, split_line l r hl]
    rfl

theorem length_split (c : Bytes) :
    (split c).length = c.count lineFeed + if Terminated c then 0 else 1 := by
  induction c using byLines with
  | nil => rfl
  | last l hl hne =>
    rw [split, cut_last l hl hne, List.count_eq_zero.mpr hl,
      if_neg (not_terminated_of_not_mem hl hne)]
    rfl
  | line l r hl ih =>
    rw [split_line l r hl, List.length_cons, ih, List.count_append, List.count_eq_zero.mpr hl,
      List.count_cons_self]
    simp only [terminated_line_iff]
    omega

/-- Cutting and joining undo each other, as far as the bytes of a text say which of them end its
lines. -/
theorem split_inverts_join :
    (∀ ls : List (Bytes × LineEnding), (∀ p ∈ ls, Endable p.1) →
      split (join ls) = ls.map Prod.fst ∧
      ∀ l, Endable l → l ≠ [] → split (join ls ++ l) = ls.map Prod.fst ++ [l]) ∧
    (∀ c, (∀ l ∈ split c, lineFeed ∉ l) ∧
      (split c).length = c.count lineFeed + if Terminated c then 0 else 1) ∧
    (∀ a b, split (a ++ [lineFeed] ++ b) = split (a ++ [lineFeed]) ++ split b) ∧
    (∀ c, carriageReturn ∉ c →
      terminate [lineFeed] (split c) = c ++ if Terminated c then [] else [lineFeed]) := by
  refine ⟨fun ls h => ⟨?_, fun l hl hne => ?_⟩, fun c => ⟨fun l => lineFeed_not_mem_of_mem_split,
    length_split c⟩, fun a b => ?_, fun c hr => terminate_split_eq hr⟩
  · have hjoin := split_join_append h []
    have hnil : split [] = [] := rfl
    rwa [List.append_nil, hnil, List.append_nil] at hjoin
  · rw [split_join_append h, hl.split_last hne]
  · have ht : Terminated (a ++ [lineFeed]) := Or.inr (List.getLast?_concat ..)
    exact ht.split_append b

theorem split_inverts_join_mixed :
    let ls : List (Bytes × LineEnding) :=
      [(Utf8.ofString "a\rb", .crlf), ([], .lf), (Utf8.ofString "\rc", .lf), ([], .crlf)]
    let l := Utf8.ofString "d"
    let c := Utf8.ofString "a\n\nb"
    (∀ p ∈ ls, Endable p.1) ∧ Endable l ∧ l ≠ [] ∧
    split (join ls) = ls.map Prod.fst ∧ split (join ls ++ l) = ls.map Prod.fst ++ [l] ∧
    carriageReturn ∉ c ∧ terminate [lineFeed] (split c) = Utf8.ofString "a\n\nb\n" := by
  intro ls l c
  have hls : ∀ p ∈ ls, Endable p.1 := by
    have hbytes : ∀ p ∈ ls, lineFeed ∉ p.1 ∧ p.1.getLast? ≠ some carriageReturn := by
      decide +kernel
    exact fun p hp => ⟨(hbytes p hp).1, (hbytes p hp).2⟩
  have hl : Endable l := ⟨by decide +kernel, by decide +kernel⟩
  have hne : l ≠ [] := by decide +kernel
  have hc : carriageReturn ∉ c := by decide +kernel
  obtain ⟨hjoin, -, -, hback⟩ := split_inverts_join
  refine ⟨hls, hl, hne, (hjoin ls hls).1, (hjoin ls hls).2 l hl hne, hc, ?_⟩
  rw [hback c hc]
  decide +kernel

end YamlLayout.Lines
