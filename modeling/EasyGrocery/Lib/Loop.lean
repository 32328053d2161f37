import Mathlib.Data.List.ProdSigma

/-! # Loops that print and may stop

A piece of a program is its `Log`: what it prints, and the exception that stops it, if one does.
`forEach` is the `for` loop over a list.  Loops compose as their lists do (`forEach_map`,
`forEach_flatMap`): nested loops are one loop over the pairs (`forEach_nested`).  A loop prints
what its rounds print up to the first that stops, and stops there (`forEach_eq`). -/

namespace Loop

variable {α α' β ε : Type*}

structure Log (β ε : Type*) where
  out : List β
  stopped : Option ε

/-- First `x`, and then `y` if nothing has stopped `x`. -/
def Log.andThen (x y : Log β ε) : Log β ε :=
  if x.stopped.isSome then x else ⟨x.out ++ y.out, y.stopped⟩

def forEach (f : α → Log β ε) : List α → Log β ε
  | [] => ⟨[], none⟩
  | a :: l => (f a).andThen (forEach f l)

/-! ### Sequences -/

theorem Log.andThen_of_none {x : Log β ε} (h : x.stopped = none) (y : Log β ε) :
    x.andThen y = ⟨x.out ++ y.out, y.stopped⟩ := by
  simp [Log.andThen, h]

theorem Log.andThen_of_some {x : Log β ε} {e : ε} (h : x.stopped = some e) (y : Log β ε) :
    x.andThen y = x := by
  simp [Log.andThen, h]

theorem Log.andThen_assoc (x y z : Log β ε) : (x.andThen y).andThen z = x.andThen (y.andThen z) := by
  cases hx : x.stopped with
  | some e => rw [andThen_of_some hx, andThen_of_some hx, andThen_of_some hx]
  | none =>
      rw [andThen_of_none hx, andThen_of_none hx]
      cases hy : y.stopped with
      | some e => rw [andThen_of_some rfl, andThen_of_some hy, hy]
      | none => rw [andThen_of_none rfl, andThen_of_none hy, List.append_assoc]

/-! ### Loops -/

theorem forEach_append (f : α → Log β ε) (l l' : List α) :
    forEach f (l ++ l') = (forEach f l).andThen (forEach f l') := by
  induction l with
  | nil => rfl
  | cons a l ih => rw [List.cons_append, forEach, forEach, ih, Log.andThen_assoc]

theorem forEach_map (f : α → Log β ε) (g : α' → α) (l : List α') :
    forEach f (l.map g) = forEach (fun a => f (g a)) l := by
  induction l with
  | nil => rfl
  | cons a l ih => rw [List.map_cons, forEach, forEach, ih]

theorem forEach_flatMap (f : α → Log β ε) (g : α' → List α) (l : List α') :
    forEach f (l.flatMap g) = forEach (fun a => forEach f (g a)) l := by
  induction l with
  | nil => rfl
  | cons a l ih => rw [List.flatMap_cons, forEach_append, ih, forEach]

/-- Nested loops are one loop over the pairs. -/
theorem forEach_nested (f : α → α' → Log β ε) (l : List α) (l' : List α') :
    forEach (fun a => forEach (f a) l') l = forEach (fun p => f p.1 p.2) (l ×ˢ l') := by
  have hproduct : l ×ˢ l' = l.flatMap fun a => l'.map (Prod.mk a) := rfl
  rw [hproduct, forEach_flatMap]
  simp only [forEach_map]

/-- A loop over the positions of a list that looks each of them up. -/
theorem forEach_range (f : Option α → Log β ε) (l : List α) :
    forEach (fun i => f l[i]?) (List.range l.length) = forEach (fun a => f (some a)) l := by
  have hmap : (List.range l.length).map (l[·]?) = l.map some := by
    apply List.ext_getElem?
    intro i
    by_cases hi : i < l.length
    · simp [hi]
    · simp [hi]
  rw [← forEach_map (fun a => f a) (l[·]?), hmap, forEach_map]

/-- **What a loop does**, when `fine` holds of the rounds that are not stopped and the others print
nothing: it prints up to the first of those, and that one stops it. -/
theorem forEach_eq {f : α → Log β ε} {fine : α → Bool} {out : α → List β} {e : ε}
    (hfine : ∀ a, fine a = true → f a = ⟨out a, none⟩)
    (hstop : ∀ a, fine a = false → f a = ⟨[], some e⟩) (l : List α) :
    forEach f l = ⟨(l.takeWhile fine).flatMap out, if l.all fine then none else some e⟩ := by
  induction l with
  | nil => rfl
  | cons a l ih =>
      cases ha : fine a with
      | false => simp [forEach, hstop a ha, Log.andThen, ha]
      | true => simp [forEach, hfine a ha, Log.andThen, ha, ih]

end Loop
