import Mathlib.Data.List.Infix

/-! # Trees addressed by key paths

A tree is given by the value it has at each path of keys.  `replace p sub` puts the tree
`sub` in the place of the whole subtree at `p`: every path under `p` is read in `sub`, every
other path is as before (`replace_of_not_prefix`, the frame of a write). -/

/-- A tree with keys in `κ` and values in `α`, given by its value at every path. -/
def KeyTree (κ α : Type*) := List κ → Option α

namespace KeyTree

variable {κ α : Type*} [DecidableEq κ]

/-- Replace the whole subtree at `p` by `sub`. -/
def replace (p : List κ) (sub t : KeyTree κ α) : KeyTree κ α :=
  fun q => if p <+: q then sub (q.drop p.length) else t q

@[simp] theorem replace_append (p q : List κ) (sub t : KeyTree κ α) :
    replace p sub t (p ++ q) = sub q := by
  simp [replace]

/-- **Frame.**  A path that does not pass through `p` keeps its value. -/
theorem replace_of_not_prefix {p q : List κ} (sub t : KeyTree κ α) (h : ¬ p <+: q) :
    replace p sub t q = t q := by
  simp [replace, h]

/-- Replacing at the root leaves nothing of the old tree. -/
@[simp] theorem replace_nil (sub t : KeyTree κ α) : replace [] sub t = sub := by
  funext q
  simp [replace]

end KeyTree
