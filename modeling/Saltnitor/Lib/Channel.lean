import Saltnitor.Lib.Machine

/-!
# Bounded channels

A sender with a list of items, a queue with `cap` places and a receiver, in any interleaving. A
send waits while the queue is full. Nothing is lost or reordered, and a sender that has no
more items than there are places never waits, however slow the receiver is.
-/

namespace Channel

variable {α : Type*}

structure Chan (α : Type*) where
  toSend : List α
  queue : List α
  received : List α

inductive Label where
  | send
  | recv

def start (items : List α) : Chan α where
  toSend := items
  queue := []
  received := []

/-- `none` for a send that has to wait or has nothing to send, and for an empty queue. -/
def step (cap : Nat) (c : Chan α) : Label → Option (Chan α)
  | .send =>
    match c.toSend with
    | [] => none
    | x :: xs =>
      if c.queue.length < cap then some { c with toSend := xs, queue := c.queue ++ [x] } else none
  | .recv =>
    match c.queue with
    | [] => none
    | x :: xs => some { c with queue := xs, received := c.received ++ [x] }

variable {cap : Nat} {c d : Chan α} {items : List α} {ls : List Label} {l : Label}

/-- Everything there is, in the order it is received. -/
def Chan.all (c : Chan α) : List α := c.received ++ c.queue ++ c.toSend

theorem all_step (h : step cap c l = some d) : d.all = c.all := by
  cases l with
  | send =>
    cases hs : c.toSend with
    | nil => simp [step, hs] at h
    | cons x xs =>
      simp only [step, hs, Option.ite_none_right_eq_some, Option.some.injEq] at h
      obtain ⟨-, rfl⟩ := h
      simp [Chan.all, hs]
  | recv =>
    cases hq : c.queue with
    | nil => simp [step, hq] at h
    | cons x xs =>
      simp only [step, hq, Option.some.injEq] at h
      subst h
      simp [Chan.all, hq]

theorem all_run (h : Machine.run (step cap) (start items) ls = some c) : c.all = items :=
  Machine.run_inv (P := fun c => c.all = items) (fun _ _ _ hc hs => (all_step hs).trans hc) h rfl

/-- A sender with no more items than places never waits. -/
theorem send_of_length_le (hle : items.length ≤ cap)
    (h : Machine.run (step cap) (start items) ls = some c) (hne : c.toSend ≠ []) :
    ∃ d, step cap c .send = some d := by
  obtain ⟨x, xs, hx⟩ := List.exists_cons_of_ne_nil hne
  have hlen := congrArg List.length (all_run h)
  simp only [Chan.all, List.length_append, hx, List.length_cons] at hlen
  exact ⟨_, by simp only [step, hx]; rw [if_pos (by omega)]⟩

end Channel
