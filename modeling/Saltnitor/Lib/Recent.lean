import Mathlib.Data.List.DropRight
import Mathlib.Algebra.GroupWithZero.Nat

/-!
# A buffer of the most recent elements

A `Recent α n` holds at most `n` elements; adding to a full one drops the
oldest. After any additions it holds the last `n` of them (`items_foldl_add`).
-/

/-- At most `n` elements, oldest first. -/
structure Recent (α : Type*) (n : ℕ) where
  items : List α
  bounded : items.length ≤ n

namespace Recent

variable {α : Type*} {n : ℕ}

def nothing : Recent α n := ⟨[], Nat.zero_le n⟩

/-- Add an element behind the others. -/
def add [NeZero n] (b : Recent α n) (x : α) : Recent α n where
  items := (if b.items.length = n then b.items.tail else b.items) ++ [x]
  bounded := by
    have hn := Nat.pos_of_ne_zero (NeZero.ne n)
    have hb := b.bounded
    split
    · simp only [List.length_append, List.length_tail, List.length_singleton]
      omega
    · simp only [List.length_append, List.length_singleton]
      omega

theorem items_add [NeZero n] (b : Recent α n) (x : α) :
    (b.add x).items = (b.items ++ [x]).rtake n := by
  have hn := Nat.pos_of_ne_zero (NeZero.ne n)
  have hb := b.bounded
  simp only [add, List.rtake, List.length_append, List.length_singleton]
  split
  · rename_i hf
    rw [hf, Nat.add_sub_cancel_left, List.drop_append_of_le_length (by omega), List.drop_one]
  · rw [show b.items.length + 1 - n = 0 by omega, List.drop_zero]

theorem rtake_append {xs ys : List α} :
    (xs ++ ys).rtake n = xs.rtake (n - ys.length) ++ ys.rtake n := by
  simp only [List.rtake_eq_reverse_take_reverse, List.reverse_append, List.take_append,
    List.length_reverse]

theorem rtake_suffix {xs : List α} : xs.rtake n <:+ xs := List.drop_suffix _ _

theorem length_rtake {xs : List α} : (xs.rtake n).length = min n xs.length := by
  rw [List.rtake, List.length_drop]
  omega

theorem rtake_of_le {xs : List α} (h : xs.length ≤ n) : xs.rtake n = xs := by
  rw [List.rtake, Nat.sub_eq_zero_of_le h, List.drop_zero]

/-- What was dropped early makes no difference later. -/
theorem rtake_append_rtake (xs ys : List α) : (xs.rtake n ++ ys).rtake n = (xs ++ ys).rtake n := by
  simp only [List.rtake_eq_reverse_take_reverse, List.reverse_append, List.reverse_reverse]
  rw [List.take_append, List.take_take, List.take_append]
  congr 3
  omega

theorem items_foldl_add [NeZero n] (b : Recent α n) (xs : List α) :
    (xs.foldl add b).items = (b.items ++ xs).rtake n := by
  induction xs generalizing b with
  | nil =>
    rw [List.foldl_nil, List.append_nil, List.rtake, Nat.sub_eq_zero_of_le b.bounded,
      List.drop_zero]
  | cons x xs ih =>
    rw [List.foldl_cons, ih, items_add, rtake_append_rtake, List.append_assoc,
      List.singleton_append]

end Recent
