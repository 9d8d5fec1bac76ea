import Mathlib.Data.List.Infix
import Saltnitor.Lib.Pool

/-!
# Many senders and one reader

Senders share a queue of `cap` places; each sends the items of its script in order, and a send waits
while the queue is full. Senders join at any time, and an item may be posted by someone who is no
sender. The reader takes the items one by one. `Kept` says what holds of every interleaving: nothing a
sender has sent is lost or reordered, and nothing of it is read before it joined.
-/

namespace Mailbox

variable {α : Type*}

structure Sender (α : Type*) where
  script : List α
  sent : Nat
  /-- How many items had been read when it joined. -/
  joined : Nat

structure Box (α : Type*) where
  senders : List (Sender α)
  /-- Each item with the place of its sender, if it has one. -/
  queue : List (Option Nat × α)
  /-- What has been read. -/
  received : List (Option Nat × α)

namespace Box

def empty : Box α := ⟨[], [], []⟩

def post (cap : Nat) (b : Box α) (a : α) : Option (Box α) :=
  if b.queue.length < cap then some { b with queue := b.queue ++ [(none, a)] } else none

def send (cap : Nat) (b : Box α) (i : Nat) : Option (Box α) :=
  (b.senders[i]?).bind fun s => (s.script[s.sent]?).bind fun a =>
    if b.queue.length < cap then
      some { b with
        senders := b.senders.set i { s with sent := s.sent + 1 }, queue := b.queue ++ [(some i, a)] }
    else none

def recv (b : Box α) : Option (α × Box α) :=
  match b.queue with
  | [] => none
  | x :: xs => some (x.2, { b with queue := xs, received := b.received ++ [x] })

/-- One more sender, with this script. -/
def join (b : Box α) (script : List α) : Box α :=
  { b with senders := b.senders ++ [⟨script, 0, b.received.length⟩] }

end Box

/-- The items of sender `i`. -/
def ofSender (i : Nat) (items : List (Option Nat × α)) : List α :=
  items.filterMap fun x => if x.1 = some i then some x.2 else none

variable {cap i j : Nat} {b c : Box α} {s : Sender α} {a : α} {x : Option Nat × α}
  {xs ys : List (Option Nat × α)}

/-! ## The items of a sender -/

theorem ofSender_append : ofSender i (xs ++ ys) = ofSender i xs ++ ofSender i ys :=
  List.filterMap_append

theorem ofSender_self : ofSender i [(some i, a)] = [a] := by
  simp [ofSender]

theorem ofSender_ne (h : x.1 ≠ some i) : ofSender i [x] = [] := by
  simp [ofSender, h]

theorem ofSender_eq_nil (h : ∀ x ∈ xs, x.1 ≠ some i) : ofSender i xs = [] := by
  rw [ofSender, List.filterMap_eq_nil_iff]
  intro x hx
  rw [if_neg (h x hx)]

theorem mem_ofSender (hx : (some i, a) ∈ xs) : a ∈ ofSender i xs :=
  List.mem_filterMap.mpr ⟨_, hx, if_pos rfl⟩

/-! ## What is kept -/

/-- Nothing of a sender is lost or reordered, or read before it joined. -/
structure Kept (cap : Nat) (b : Box α) : Prop where
  bounded : b.queue.length ≤ cap
  order : ∀ i s, b.senders[i]? = some s → ofSender i (b.received ++ b.queue) = s.script.take s.sent
  sent_le : ∀ s ∈ b.senders, s.sent ≤ s.script.length
  joined_le : ∀ s ∈ b.senders, s.joined ≤ b.received.length
  fresh : ∀ i s, b.senders[i]? = some s → ∀ x ∈ b.received.take s.joined, x.1 ≠ some i
  known : ∀ x ∈ b.received ++ b.queue, ∀ i, x.1 = some i → i < b.senders.length

theorem Kept.empty (cap : Nat) : Kept cap (.empty : Box α) where
  bounded := Nat.zero_le cap
  order _ _ h := nomatch h
  sent_le := List.forall_mem_nil _
  joined_le := List.forall_mem_nil _
  fresh _ _ h := nomatch h
  known := List.forall_mem_nil _

theorem Kept.post (h : Kept cap b) (hp : b.post cap a = some c) : Kept cap c := by
  obtain ⟨hroom, hc⟩ := Option.ite_none_right_eq_some.mp hp
  cases hc
  refine ⟨?_, fun i s hs => ?_, h.sent_le, h.joined_le, h.fresh, fun x hx i hi => ?_⟩
  · rw [List.length_append, List.length_singleton]
    omega
  · rw [← List.append_assoc, ofSender_append, h.order i s hs, ofSender_ne (x := (none, a)) nofun,
      List.append_nil]
  · rw [← List.append_assoc] at hx
    rcases List.mem_append.mp hx with hx | hx
    · exact h.known x hx i hi
    · rw [List.mem_singleton.mp hx] at hi
      cases hi

theorem send_eq_some (hs : b.send cap i = some c) : ∃ s a, b.senders[i]? = some s ∧
    s.script[s.sent]? = some a ∧ b.queue.length < cap ∧
    c = { b with
      senders := b.senders.set i { s with sent := s.sent + 1 }, queue := b.queue ++ [(some i, a)] } := by
  obtain ⟨s, hi, hs⟩ := Option.bind_eq_some_iff.mp hs
  obtain ⟨a, ha, hs⟩ := Option.bind_eq_some_iff.mp hs
  obtain ⟨hroom, hc⟩ := Option.ite_none_right_eq_some.mp hs
  cases hc
  exact ⟨s, a, hi, ha, hroom, rfl⟩

theorem Kept.send (h : Kept cap b) (hs : b.send cap i = some c) : Kept cap c := by
  obtain ⟨s, a, hi, ha, hroom, rfl⟩ := send_eq_some hs
  have hlt : s.sent < s.script.length := (List.getElem?_eq_some_iff.mp ha).1
  refine ⟨?_, fun j t hj => ?_, ?_, ?_, fun j t hj => ?_, fun x hx j hj => ?_⟩
  · rw [List.length_append, List.length_singleton]
    omega
  · rw [← List.append_assoc, ofSender_append]
    rcases Pool.getElem?_set_cases hj with ⟨rfl, rfl⟩ | ⟨hij, hj⟩
    · rw [h.order _ _ hi, ofSender_self, List.take_add_one, ha]
      rfl
    · rw [h.order _ _ hj, ofSender_ne (by simpa using Ne.symm hij), List.append_nil]
  · exact Pool.forall_set h.sent_le hlt
  · exact Pool.forall_set h.joined_le (h.joined_le s (List.mem_of_getElem? hi))
  · rcases Pool.getElem?_set_cases hj with ⟨rfl, rfl⟩ | ⟨-, hj⟩
    · exact h.fresh j s hi
    · exact h.fresh j t hj
  · rw [List.length_set]
    rw [← List.append_assoc] at hx
    rcases List.mem_append.mp hx with hx | hx
    · exact h.known x hx j hj
    · rw [List.mem_singleton.mp hx] at hj
      cases hj
      exact (List.getElem?_eq_some_iff.mp hi).1

theorem recv_eq_some (hr : b.recv = some (a, c)) : ∃ x xs, b.queue = x :: xs ∧ a = x.2 ∧
    c = { b with queue := xs, received := b.received ++ [x] } := by
  unfold Box.recv at hr
  cases hq : b.queue with
  | nil => rw [hq] at hr; cases hr
  | cons x xs => rw [hq] at hr; cases hr; exact ⟨x, xs, rfl, rfl, rfl⟩

theorem Kept.recv (h : Kept cap b) (hr : b.recv = some (a, c)) : Kept cap c := by
  obtain ⟨x, xs, hq, -, rfl⟩ := recv_eq_some hr
  have hall : b.received ++ [x] ++ xs = b.received ++ b.queue := by
    rw [hq, List.append_assoc, List.singleton_append]
  have hbound := h.bounded
  rw [hq, List.length_cons] at hbound
  refine ⟨?_, fun i s hs => ?_, h.sent_le, fun s hs => ?_, fun i s hs => ?_, ?_⟩
  · show xs.length ≤ cap
    omega
  · show ofSender i (b.received ++ [x] ++ xs) = _
    rw [hall]
    exact h.order i s hs
  · have hle := h.joined_le s hs
    rw [List.length_append, List.length_singleton]
    omega
  · rw [List.take_append_of_le_length (h.joined_le s (List.mem_of_getElem? hs))]
    exact h.fresh i s hs
  · show ∀ y ∈ b.received ++ [x] ++ xs, _
    rw [hall]
    exact h.known

theorem Kept.join (h : Kept cap b) (script : List α) : Kept cap (b.join script) := by
  have hnone (x) (hx : x ∈ b.received ++ b.queue) : x.1 ≠ some b.senders.length := fun hi =>
    absurd (h.known x hx _ hi) (Nat.lt_irrefl _)
  refine ⟨h.bounded, fun i s hs => ?_, ?_, ?_, fun i s hs => ?_, fun x hx i hi => ?_⟩
  · rcases Pool.getElem?_concat_cases hs with hs | ⟨rfl, rfl⟩
    · exact h.order i s hs
    · exact (ofSender_eq_nil hnone).trans (List.take_zero).symm
  · exact Pool.forall_concat h.sent_le (Nat.zero_le _)
  · exact Pool.forall_concat h.joined_le (Nat.le_refl _)
  · rcases Pool.getElem?_concat_cases hs with hs | ⟨rfl, rfl⟩
    · exact h.fresh i s hs
    · exact fun x hx => hnone x (List.mem_append_left _ (List.mem_of_mem_take hx))
  · have hlt := h.known x hx i hi
    rw [Box.join, List.length_append]
    omega

/-! ## What is read -/

/-- What is read of a sender is the beginning of its script. -/
theorem Kept.received_le (h : Kept cap b) (hs : b.senders[i]? = some s) :
    ofSender i b.received <+: s.script := by
  have hall := h.order i s hs
  rw [ofSender_append] at hall
  exact (hall ▸ List.prefix_append ..).trans (List.take_prefix ..)

theorem Kept.ofSender_drop (h : Kept cap b) (hs : b.senders[i]? = some s) :
    ofSender i (b.received.drop s.joined) = ofSender i b.received := by
  conv_rhs => rw [← List.take_append_drop s.joined b.received]
  rw [ofSender_append, ofSender_eq_nil (h.fresh i s hs), List.nil_append]

end Mailbox
