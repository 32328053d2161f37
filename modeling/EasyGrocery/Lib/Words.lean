import Mathlib.Data.List.Infix

/-! # Words between separators

`pieces p l` are the words of `l` when every run of separators counts as one and none of them is
empty.  Splitting at more kinds of separators splits the words further (`pieces_eq_flatMap`);
where a list has no separators of the other kinds, nothing changes (`pieces_congr`).

`InOrder ws l` says that `l` holds the words `ws` one after the other, without overlap. -/

namespace Words

variable {α : Type*} {p q : α → Bool}

/-- The words of `l`, with the elements that satisfy `p` as separators. -/
def pieces (p : α → Bool) (l : List α) : List (List α) := (l.splitOnP p).filter fun w => !w.isEmpty

theorem pieces_append_cons (xs ys : List α) {sep : α} (h : p sep = true) :
    pieces p (xs ++ sep :: ys) = pieces p xs ++ pieces p ys := by
  unfold pieces
  rw [List.splitOnP_append_cons xs ys h, List.filter_append]

/-- Splitting at every separator is splitting at some of them first. -/
theorem pieces_eq_flatMap (h : ∀ a, q a = true → p a = true) (l : List α) :
    pieces p l = (l.splitOnP q).flatMap (pieces p) := by
  induction hn : l.length using Nat.strongRecOn generalizing l with
  | ind n ih =>
      by_cases hsep : ∃ a ∈ l, q a = true
      · obtain ⟨a, ha, hq⟩ := hsep
        obtain ⟨xs, ys, rfl⟩ := List.append_of_mem ha
        simp only [List.length_append, List.length_cons] at hn
        rw [pieces_append_cons xs ys (h a hq), List.splitOnP_append_cons xs ys hq,
          List.flatMap_append, ← ih xs.length (by omega) xs rfl, ← ih ys.length (by omega) ys rfl]
      · have hnone : ∀ a ∈ l, q a = false := by simpa using hsep
        rw [List.splitOnP_eq_singleton hnone, List.flatMap_singleton]

theorem splitOnP_congr {l : List α} (h : ∀ a ∈ l, p a = q a) : l.splitOnP p = l.splitOnP q := by
  induction l with
  | nil => rfl
  | cons a l ih =>
      obtain ⟨ha, hl⟩ := List.forall_mem_cons.mp h
      rw [List.splitOnP_cons_eq_if_modifyHead, List.splitOnP_cons_eq_if_modifyHead, ha, ih hl]

theorem pieces_congr {l : List α} (h : ∀ a ∈ l, p a = q a) : pieces p l = pieces q l := by
  unfold pieces
  rw [splitOnP_congr h]

/-- A map that keeps separators apart from the rest goes into the words. -/
theorem splitOnP_map {β : Type*} {f : α → β} {r : β → Bool} (h : ∀ a, r (f a) = q a) (l : List α) :
    (l.map f).splitOnP r = (l.splitOnP q).map (List.map f) := by
  induction l with
  | nil => rfl
  | cons a l ih =>
      rw [List.map_cons, List.splitOnP_cons_eq_if_modifyHead, List.splitOnP_cons_eq_if_modifyHead,
        h a, ih]
      cases q a with
      | true => rfl
      | false => cases l.splitOnP q <;> rfl

/-- The pieces hold the list without its separators. -/
theorem flatten_splitOnP (l : List α) : (l.splitOnP p).flatten = l.filter fun a => !p a := by
  induction l with
  | nil => rfl
  | cons a l ih =>
      rw [List.splitOnP_cons_eq_if_modifyHead]
      obtain ⟨w, ws, hws⟩ := List.exists_cons_of_ne_nil (List.splitOnP_ne_nil p l)
      rw [hws] at ih ⊢
      cases hp : p a with
      | true => simpa [hp] using ih
      | false => simpa [hp] using ih

theorem flatten_pieces (l : List α) : (pieces p l).flatten = l.filter fun a => !p a := by
  unfold pieces
  rw [List.flatten_filter_not_isEmpty, flatten_splitOnP]

/-! ### Words in order -/

/-- The list holds the words one after the other. -/
def InOrder : List (List α) → List α → Prop
  | [], _ => True
  | w :: ws, l => ∃ before after, l = before ++ (w ++ after) ∧ InOrder ws after

theorem InOrder.append_left {ws : List (List α)} {l : List α} (h : InOrder ws l) (m : List α) :
    InOrder ws (m ++ l) := by
  cases ws with
  | nil => trivial
  | cons w ws =>
      obtain ⟨before, after, rfl, h⟩ := h
      exact ⟨m ++ before, after, by simp, h⟩

theorem inOrder_nil_cons (ws : List (List α)) (l : List α) : InOrder ([] :: ws) l ↔ InOrder ws l := by
  constructor
  · rintro ⟨before, after, rfl, h⟩
    exact h.append_left before
  · exact fun h => ⟨[], l, rfl, h⟩

/-- Empty words are found everywhere. -/
theorem inOrder_filter (ws : List (List α)) (l : List α) :
    InOrder (ws.filter fun w => !w.isEmpty) l ↔ InOrder ws l := by
  induction ws generalizing l with
  | nil => rfl
  | cons w ws ih => cases w with
    | nil => simpa [inOrder_nil_cons] using ih l
    | cons a w =>
        have hfilter : ((a :: w) :: ws).filter (fun w => !w.isEmpty) =
            (a :: w) :: ws.filter fun w => !w.isEmpty := rfl
        rw [hfilter, InOrder, InOrder]
        exact exists_congr fun before => exists_congr fun after => and_congr_right fun _ => ih after

theorem InOrder.sublist {ws : List (List α)} {l : List α} (h : InOrder ws l) :
    ws.flatten.Sublist l := by
  induction ws generalizing l with
  | nil => exact l.nil_sublist
  | cons w ws ih =>
      obtain ⟨before, after, rfl, h⟩ := h
      exact ((ih h).append_left w).trans (List.sublist_append_right before _)

end Words
