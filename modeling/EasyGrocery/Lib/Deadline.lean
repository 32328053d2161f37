import Mathlib.Algebra.BigOperators.Group.Finset.Basic

/-! # A queue with deadlines

A server takes the entries of a queue in turn, each for at most `d`; the one in front is done by
`due`.  What is `OnTime` stays so: when the one in front is done (`OnTime.serve`), and when
entries come to the end that could all wait for everything in the queue (`OnTime.append`).

`length_eq_sum`: the length of a queue, by how often each client is in it. -/

namespace Deadline

variable {α : Type*} {d due time : ℕ} {deadline : α → ℕ} {queue : List α}

/-- Every entry is done before its deadline, as long as any of them takes. -/
def OnTime (d due : ℕ) (deadline : α → ℕ) (queue : List α) : Prop :=
  ∀ j a, queue[j]? = some a → due + j * d < deadline a

theorem onTime_nil : OnTime d due deadline [] := by
  intro j a h
  simp at h

/-- An entry whose deadline has come has left the queue. -/
theorem OnTime.notMem (h : OnTime d due deadline queue) {a : α} (ha : deadline a ≤ due) : a ∉ queue := by
  intro hmem
  obtain ⟨j, hj⟩ := List.mem_iff_getElem?.mp hmem
  have := h j a hj
  omega

theorem OnTime.mono (h : OnTime d due deadline queue) {deadline' : α → ℕ}
    (hle : ∀ a ∈ queue, deadline a ≤ deadline' a) : OnTime d due deadline' queue :=
  fun j a hj => (h j a hj).trans_le (hle a (List.mem_of_getElem? hj))

theorem OnTime.serve {a : α} (h : OnTime d due deadline (a :: queue)) (ht : time ≤ due) :
    OnTime d (time + d) deadline queue := by
  intro j b hj
  have hb := h (j + 1) b hj
  rw [Nat.succ_mul] at hb
  omega

theorem OnTime.append (h : OnTime d due deadline queue) (hdue : due ≤ time + d) {new : List α}
    (hnew : ∀ a ∈ new, time + (queue ++ new).length * d < deadline a) :
    OnTime d due deadline (queue ++ new) := by
  intro j a hj
  by_cases hold : j < queue.length
  · rw [List.getElem?_append_left hold] at hj
    exact h j a hj
  · have hlt : j + 1 ≤ (queue ++ new).length := (List.getElem?_eq_some_iff.mp hj).1
    rw [List.getElem?_append_right (by omega)] at hj
    have hmul : (j + 1) * d ≤ (queue ++ new).length * d := Nat.mul_le_mul_right d hlt
    have ha := hnew a (List.mem_of_getElem? hj)
    rw [Nat.succ_mul] at hmul
    omega

/-- The length of a queue of clients below `n`. -/
theorem length_eq_sum {queue : List ℕ} {n : ℕ} {f : ℕ → ℕ} (hcount : ∀ c, queue.count c = f c)
    (hlt : ∀ c, n ≤ c → f c = 0) : queue.length = ∑ c ∈ Finset.range n, f c := by
  have hmem : ∀ c ∈ (queue : Multiset ℕ), c ∈ Finset.range n := by
    intro c hc
    by_contra hn
    have hzero := (hcount c).trans (hlt c (by simpa using hn))
    exact List.count_eq_zero.mp hzero hc
  rw [← Multiset.coe_card, ← Multiset.sum_count_eq_card hmem]
  exact Finset.sum_congr rfl fun c _ => (Multiset.coe_count c queue).trans (hcount c)

end Deadline
