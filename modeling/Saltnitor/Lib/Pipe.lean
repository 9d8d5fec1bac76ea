import Saltnitor.Lib.Machine

/-!
# A pipe its reader can leave

A sender with a list of items, a queue with `cap` places and a reader, in any interleaving. The
sender returns when it has sent everything, or when it is refused because the reader has left. What
is received is the first part of the items, all of them if the reader sees the end (`Inv`). A pipe
never blocks a reader that stays (`exists_step`), and no run goes on for ever (`rank_move`).
-/

namespace Pipe

variable {α : Type*}

structure State (α : Type*) where
  toSend : List α
  queue : List α
  received : List α
  /-- The reader is there. -/
  reading : Bool
  /-- The sender has returned. -/
  closed : Bool
  /-- The reader has seen the end. -/
  ended : Bool

inductive Label where
  | send
  | refuse
  | close
  | recv
  | finish
  | leave
  deriving DecidableEq

def start (items : List α) : State α where
  toSend := items
  queue := []
  received := []
  reading := true
  closed := false
  ended := false

/-- `none` where the step has to wait or cannot happen. -/
def step (cap : Nat) (p : State α) : Label → Option (State α)
  | .send =>
    match p.toSend with
    | [] => none
    | x :: xs =>
      if p.closed = false ∧ p.reading = true ∧ p.queue.length < cap then
        some { p with toSend := xs, queue := p.queue ++ [x] }
      else none
  | .refuse =>
    if p.closed = false ∧ p.reading = false ∧ p.toSend ≠ [] then some { p with closed := true } else none
  | .close => if p.closed = false ∧ p.toSend = [] then some { p with closed := true } else none
  | .recv =>
    match p.queue with
    | [] => none
    | x :: xs => some { p with queue := xs, received := p.received ++ [x] }
  | .finish =>
    if p.reading = true ∧ p.closed = true ∧ p.queue = [] ∧ p.ended = false then
      some { p with ended := true }
    else none
  | .leave => if p.reading = true then some { p with reading := false, queue := [] } else none

variable {cap : Nat} {p q : State α} {items : List α} {l : Label} {ls : List Label}

/-- The steps. -/
inductive Move (cap : Nat) (p : State α) : Label → State α → Prop where
  | send {x : α} {xs : List α} (hx : p.toSend = x :: xs) (hc : p.closed = false)
      (hr : p.reading = true) (hroom : p.queue.length < cap) :
      Move cap p .send { p with toSend := xs, queue := p.queue ++ [x] }
  | refuse (hc : p.closed = false) (hr : p.reading = false) (hx : p.toSend ≠ []) :
      Move cap p .refuse { p with closed := true }
  | close (hc : p.closed = false) (hx : p.toSend = []) : Move cap p .close { p with closed := true }
  | recv {x : α} {xs : List α} (hx : p.queue = x :: xs) :
      Move cap p .recv { p with queue := xs, received := p.received ++ [x] }
  | finish (hr : p.reading = true) (hc : p.closed = true) (hq : p.queue = []) (he : p.ended = false) :
      Move cap p .finish { p with ended := true }
  | leave (hr : p.reading = true) : Move cap p .leave { p with reading := false, queue := [] }

theorem move_of_step (h : step cap p l = some q) : Move cap p l q := by
  cases l with
  | send =>
    cases hx : p.toSend with
    | nil => simp [step, hx] at h
    | cons x xs =>
      simp only [step, hx, Option.ite_none_right_eq_some, Option.some.injEq] at h
      obtain ⟨⟨hc, hr, hroom⟩, rfl⟩ := h
      exact .send hx hc hr hroom
  | refuse =>
    simp only [step, Option.ite_none_right_eq_some, Option.some.injEq] at h
    obtain ⟨⟨hc, hr, hx⟩, rfl⟩ := h
    exact .refuse hc hr hx
  | close =>
    simp only [step, Option.ite_none_right_eq_some, Option.some.injEq] at h
    obtain ⟨⟨hc, hx⟩, rfl⟩ := h
    exact .close hc hx
  | recv =>
    cases hx : p.queue with
    | nil => simp [step, hx] at h
    | cons x xs =>
      simp only [step, hx, Option.some.injEq] at h
      subst h
      exact .recv hx
  | finish =>
    simp only [step, Option.ite_none_right_eq_some, Option.some.injEq] at h
    obtain ⟨⟨hr, hc, hq, he⟩, rfl⟩ := h
    exact .finish hr hc hq he
  | leave =>
    simp only [step, Option.ite_none_right_eq_some, Option.some.injEq] at h
    obtain ⟨hr, rfl⟩ := h
    exact .leave hr

/-! ## What is received -/

structure Inv (cap : Nat) (items : List α) (p : State α) : Prop where
  /-- Nothing is lost but what was under way when the reader left. -/
  parts : ∃ lost, items = p.received ++ p.queue ++ lost ++ p.toSend ∧ (p.reading = true → lost = [])
  bounded : p.queue.length ≤ cap
  left : p.reading = false → p.queue = []
  ended : p.ended = true → p.closed = true ∧ p.received = items
  closed : p.closed = true → p.toSend ≠ [] → p.reading = false

theorem inv_start (cap : Nat) (items : List α) : Inv cap items (start items) where
  parts := ⟨[], by simp [start], fun _ => rfl⟩
  bounded := Nat.zero_le cap
  left h := nomatch h
  ended h := nomatch h
  closed h := nomatch h

theorem Inv.move (h : Inv cap items p) (hm : Move cap p l q) : Inv cap items q := by
  obtain ⟨lost, hitems, hlost⟩ := h.parts
  cases hm with
  | @send x xs hx hc hr hroom =>
    cases hlost hr
    refine ⟨⟨[], ?_, fun _ => rfl⟩, ?_, fun hl => ?_, fun he => ?_, fun hcl => ?_⟩
    · rw [hitems, hx]
      simp
    · rw [List.length_append, List.length_singleton]
      omega
    · cases hr.symm.trans hl
    · cases hc.symm.trans (h.ended he).1
    · cases hc.symm.trans hcl
  | refuse hc hr hx =>
    refine ⟨⟨lost, hitems, hlost⟩, h.bounded, h.left, fun he => ?_, fun _ _ => hr⟩
    cases hc.symm.trans (h.ended he).1
  | close hc hx =>
    refine ⟨⟨lost, hitems, hlost⟩, h.bounded, h.left, fun he => ?_, fun _ hne => absurd hx hne⟩
    cases hc.symm.trans (h.ended he).1
  | @recv x xs hx =>
    have hr : p.reading = true := by
      by_contra hr
      have hq := h.left (by simpa using hr)
      cases hx.symm.trans hq
    cases hlost hr
    refine ⟨⟨[], ?_, fun _ => rfl⟩, ?_, fun hl => ?_, fun he => ?_, h.closed⟩
    · rw [hitems, hx]
      simp
    · have hb := h.bounded
      rw [hx, List.length_cons] at hb
      show xs.length ≤ cap
      omega
    · cases hr.symm.trans hl
    · -- who has seen the end has received everything
      have hall := congrArg List.length hitems
      rw [← (h.ended he).2, hx] at hall
      simp only [List.length_append, List.length_cons] at hall
      omega
  | finish hr hc hq he =>
    refine ⟨⟨lost, hitems, hlost⟩, h.bounded, h.left, fun _ => ⟨hc, ?_⟩, h.closed⟩
    have hsent : p.toSend = [] := by
      by_contra hne
      cases hr.symm.trans (h.closed hc hne)
    rw [hitems, hq, hlost hr, hsent]
    simp
  | leave hr =>
    cases hlost hr
    refine ⟨⟨p.queue, ?_, fun hl => (nomatch hl)⟩, Nat.zero_le cap, fun _ => rfl, h.ended, fun _ _ => rfl⟩
    rw [hitems]
    simp

theorem Inv.run (h : Machine.run (step cap) (start items) ls = some p) : Inv cap items p :=
  Machine.run_inv (fun _ _ _ hi hs => hi.move (move_of_step hs)) h (inv_start cap items)

theorem Inv.prefix (h : Inv cap items p) : p.received <+: items := by
  obtain ⟨lost, hitems, -⟩ := h.parts
  rw [hitems, List.append_assoc, List.append_assoc]
  exact List.prefix_append ..

/-- What has been sent is received, or in the queue, or lost with the reader. -/
theorem Inv.length_received (h : Inv cap items p) :
    p.received.length + p.queue.length + p.toSend.length ≤ items.length := by
  obtain ⟨lost, hitems, -⟩ := h.parts
  have hlen := congrArg List.length hitems
  simp only [List.length_append] at hlen
  omega

theorem Inv.toSend_of_ended (h : Inv cap items p) (he : p.ended = true) : p.toSend = [] := by
  have hle := h.length_received
  rw [(h.ended he).2] at hle
  exact List.length_eq_zero_iff.mp (by omega)

theorem Inv.suffix (h : Inv cap items p) : p.toSend <:+ items := by
  obtain ⟨lost, hitems, -⟩ := h.parts
  rw [hitems]
  exact List.suffix_append ..

/-! ## Progress -/

/-- A reader that stays can go on, or is waiting for a sender that can. -/
theorem exists_step (hcap : 0 < cap) (hr : p.reading = true) (he : p.ended = false) :
    ∃ l, l ≠ .leave ∧ (step cap p l).isSome = true := by
  cases hq : p.queue with
  | cons x xs =>
    refine ⟨.recv, nofun, ?_⟩
    rw [step, hq]
    rfl
  | nil =>
    cases hc : p.closed with
    | true =>
      refine ⟨.finish, nofun, ?_⟩
      rw [step, if_pos ⟨hr, hc, hq, he⟩]
      rfl
    | false =>
      cases hx : p.toSend with
      | nil =>
        refine ⟨.close, nofun, ?_⟩
        rw [step, if_pos ⟨hc, hx⟩]
        rfl
      | cons x xs =>
        have hroom : p.queue.length < cap := by rwa [hq]
        refine ⟨.send, nofun, ?_⟩
        rw [step, hx]
        dsimp only
        rw [if_pos ⟨hc, hr, hroom⟩]
        rfl

/-- The steps that are left, at most. -/
def rank (p : State α) : Nat :=
  2 * p.toSend.length + p.queue.length + (!p.closed).toNat + (!p.ended).toNat + p.reading.toNat

theorem rank_move (hm : Move cap p l q) : rank q < rank p := by
  cases hm with
  | send hx hc hr hroom =>
    simp only [rank, hx, List.length_cons, List.length_append, List.length_nil]
    omega
  | refuse hc hr hx | close hc hx =>
    simp only [rank, hc, Bool.not_true, Bool.not_false, Bool.toNat_false, Bool.toNat_true]
    omega
  | recv hx =>
    simp only [rank, hx, List.length_cons]
    omega
  | finish hr hc hq he =>
    simp only [rank, he, Bool.not_true, Bool.not_false, Bool.toNat_false, Bool.toNat_true]
    omega
  | leave hr =>
    simp only [rank, hr, List.length_nil, Bool.toNat_false, Bool.toNat_true]
    omega

end Pipe
