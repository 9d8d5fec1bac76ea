import Mathlib.Data.List.Basic
import Mathlib.Order.Bounds.Basic
import Mathlib.Order.MinMax

/-!
# Edit distance

An edit inserts, deletes or replaces one element. `lev` is the recursion from the front
of both lists; it is the least number of edits (`isLeast_lev`), so it is the same from
the back (`lev_reverse`). `row` is a row of the table: the distances of one list to all
beginnings of another.
-/

namespace EditDistance

variable {α : Type*}

inductive Edit : List α → List α → Prop
  | insert (u v : List α) (c : α) : Edit (u ++ v) (u ++ c :: v)
  | delete (u v : List α) (c : α) : Edit (u ++ c :: v) (u ++ v)
  | replace (u v : List α) (c d : α) : Edit (u ++ c :: v) (u ++ d :: v)

/-- So many edits turn the one list into the other. -/
inductive Edits : ℕ → List α → List α → Prop
  | refl (a : List α) : Edits 0 a a
  | head {n : ℕ} {a b c : List α} (h : Edit a b) (hs : Edits n b c) : Edits (n + 1) a c

variable {a b c : List α} {x y : α} {n : ℕ}

theorem Edit.cons (h : Edit a b) (x : α) : Edit (x :: a) (x :: b) := by
  cases h with
  | insert u v c => exact .insert (x :: u) v c
  | delete u v c => exact .delete (x :: u) v c
  | replace u v c d => exact .replace (x :: u) v c d

theorem Edit.reverse (h : Edit a b) : Edit a.reverse b.reverse := by
  cases h with
  | insert u v c =>
    rw [List.reverse_append, List.reverse_append, List.reverse_cons, List.append_assoc]
    exact .insert v.reverse u.reverse c
  | delete u v c =>
    rw [List.reverse_append, List.reverse_append, List.reverse_cons, List.append_assoc]
    exact .delete v.reverse u.reverse c
  | replace u v c d =>
    simp only [List.reverse_append, List.reverse_cons, List.append_assoc]
    exact .replace v.reverse u.reverse c d

theorem Edits.cons (h : Edits n a b) (x : α) : Edits n (x :: a) (x :: b) := by
  induction h with
  | refl a => exact .refl _
  | head h _ ih => exact .head (h.cons x) ih

theorem Edits.reverse (h : Edits n a b) : Edits n a.reverse b.reverse := by
  induction h with
  | refl a => exact .refl _
  | head h _ ih => exact .head h.reverse ih

theorem edits_reverse : Edits n a.reverse b.reverse ↔ Edits n a b :=
  ⟨fun h => by simpa using h.reverse, Edits.reverse⟩

theorem edits_nil_left (b : List α) : Edits b.length [] b := by
  induction b with
  | nil => exact .refl []
  | cons y b ih => exact .head (.insert [] [] y) (ih.cons y)

theorem edits_nil_right (a : List α) : Edits a.length a [] := by
  induction a with
  | nil => exact .refl []
  | cons x a ih => exact .head (.delete [] a x) ih

/-! ## The recursion -/

variable [DecidableEq α]

def lev : List α → List α → ℕ
  | [], b => b.length
  | a, [] => a.length
  | x :: a, y :: b =>
    min (min (lev a b + if x = y then 0 else 1) (lev a (y :: b) + 1)) (lev (x :: a) b + 1)
termination_by a b => a.length + b.length

@[simp] theorem lev_nil_left (b : List α) : lev [] b = b.length := by rw [lev]

@[simp] theorem lev_nil_right (a : List α) : lev a [] = a.length := by
  cases a with
  | nil => rw [lev]
  | cons x a =>
    rw [lev]
    exact List.cons_ne_nil x a

theorem lev_cons_cons (x y : α) (a b : List α) : lev (x :: a) (y :: b) =
    min (min (lev a b + if x = y then 0 else 1) (lev a (y :: b) + 1)) (lev (x :: a) b + 1) := by
  rw [lev]

theorem lev_cons_left (x : α) (a b : List α) : lev (x :: a) b ≤ lev a b + 1 := by
  cases b with
  | nil => simp
  | cons y b =>
    rw [lev_cons_cons]
    exact (min_le_left ..).trans (min_le_right ..)

theorem lev_cons_right (y : α) (a b : List α) : lev a (y :: b) ≤ lev a b + 1 := by
  cases a with
  | nil => simp
  | cons x a =>
    rw [lev_cons_cons]
    exact min_le_right ..

theorem lev_self (a : List α) : lev a a = 0 := by
  induction a with
  | nil => exact lev_nil_left []
  | cons x a ih =>
    rw [lev_cons_cons, ih, if_pos rfl]
    omega

/-! ## No edit does better -/

/-- The element in front takes part in a replacement, a deletion or an insertion at most. -/
theorem lev_insert (x : α) (a b : List α) : lev a b ≤ lev (x :: a) b + 1 := by
  induction b with
  | nil =>
    rw [lev_nil_right, lev_nil_right, List.length_cons]
    omega
  | cons y b ih =>
    have hy := lev_cons_right y a b
    rw [lev_cons_cons]
    omega

theorem lev_replace (x y : α) (a b : List α) : lev (x :: a) b ≤ lev (y :: a) b + 1 := by
  induction b with
  | nil => simp
  | cons z b ih =>
    rw [lev_cons_cons, lev_cons_cons]
    split <;> split <;> omega

theorem lev_cons_le (h : ∀ b, lev a b ≤ lev c b + 1) (x : α) (b : List α) :
    lev (x :: a) b ≤ lev (x :: c) b + 1 := by
  induction b with
  | nil =>
    have := h []
    rw [lev_nil_right, lev_nil_right] at *
    simpa using this
  | cons y b ih =>
    have h₁ := h b
    have h₂ := h (y :: b)
    rw [lev_cons_cons, lev_cons_cons]
    omega

theorem lev_append_le (h : ∀ b, lev a b ≤ lev c b + 1) (u b : List α) :
    lev (u ++ a) b ≤ lev (u ++ c) b + 1 := by
  induction u generalizing b with
  | nil => exact h b
  | cons x u ih => exact lev_cons_le ih x b

theorem Edit.lev_le (h : Edit a c) (b : List α) : lev a b ≤ lev c b + 1 := by
  cases h with
  | insert u v x => exact lev_append_le (lev_insert x v) u b
  | delete u v x => exact lev_append_le (lev_cons_left x v) u b
  | replace u v x y => exact lev_append_le (lev_replace x y v) u b

theorem Edits.lev_le (h : Edits n a b) : lev a b ≤ n := by
  induction h with
  | refl a => exact (lev_self a).le
  | head h _ ih => exact (h.lev_le _).trans (Nat.succ_le_succ ih)

/-! ## So many edits are enough -/

theorem edits_lev (a b : List α) : Edits (lev a b) a b := by
  induction a, b using lev.induct with
  | case1 b =>
    rw [lev_nil_left]
    exact edits_nil_left b
  | case2 a =>
    rw [lev_nil_right]
    exact edits_nil_right a
  | case3 x a y b ih₁ ih₂ ih₃ =>
    rw [lev_cons_cons]
    rcases min_choice (min (lev a b + if x = y then 0 else 1) (lev a (y :: b) + 1))
      (lev (x :: a) b + 1) with h | h
    · rw [h]
      rcases min_choice (lev a b + if x = y then 0 else 1) (lev a (y :: b) + 1) with h | h
      · rw [h]
        split
        · rename_i hxy
          rw [hxy]
          exact ih₁.cons y
        · exact .head (.replace [] a x y) (ih₁.cons y)
      · rw [h]
        exact .head (.delete [] a x) ih₂
    · rw [h]
      exact .head (.insert [] (x :: a) y) (ih₃.cons y)

/-- **The recursion counts the fewest edits.** -/
theorem isLeast_lev (a b : List α) : IsLeast {n | Edits n a b} (lev a b) :=
  ⟨edits_lev a b, fun _ h => Edits.lev_le h⟩

theorem lev_reverse (a b : List α) : lev a.reverse b.reverse = lev a b := by
  have h := isLeast_lev a.reverse b.reverse
  simp only [edits_reverse] at h
  exact h.unique (isLeast_lev a b)

/-! ## Rows of the table -/

/-- The distances of `p` to `q` and to what grows from it by the elements of a list, each put in
front. -/
def row (p : List α) : List α → List α → List ℕ
  | q, [] => [lev p q]
  | q, y :: b => lev p q :: row p (y :: q) b

variable {p q : List α}

theorem getElem?_row (b c : List α) :
    (row p q (b ++ c))[b.length]? = some (lev p (b.reverse ++ q)) := by
  induction b generalizing q with
  | nil => cases c <;> rfl
  | cons y b ih =>
    rw [List.cons_append, row, List.length_cons, List.getElem?_cons_succ, ih, List.reverse_cons,
      List.append_assoc]
    rfl

theorem getLast?_row : (row p q b).getLast? = some (lev p (b.reverse ++ q)) := by
  induction b generalizing q with
  | nil => rfl
  | cons y b ih =>
    rw [row, List.getLast?_cons, ih, List.reverse_cons, List.append_assoc]
    rfl

theorem row_concat : row p q (b ++ [y]) = row p q b ++ [lev p (y :: (b.reverse ++ q))] := by
  induction b generalizing q with
  | nil => rfl
  | cons z b ih =>
    rw [List.cons_append, row, ih, row, List.cons_append, List.reverse_cons, List.append_assoc]
    rfl

theorem row_nil : row [] q b = List.range' q.length (b.length + 1) := by
  induction b generalizing q with
  | nil =>
    rw [row, lev_nil_left]
    rfl
  | cons y b ih =>
    rw [row, ih, lev_nil_left, List.length_cons, List.length_cons, ← List.range'_succ]

end EditDistance
