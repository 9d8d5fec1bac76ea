import Saltnitor.ControlApi.Interleave

/-!
# Is the model still there

`h_chat` forwards after `ensure` has given the lock back. Between the two, another
call may load another model: the chat then reaches a router that holds the wrong
one. `Spares` says of a step that it does not do this to a chat that is about to
forward, and where every step spares them every chat finds its model.
-/

namespace Saltnitor.ControlApi

open Rust Http ProxyStream

/-- A chat whose model is confirmed and whose bytes are still to be forwarded. -/
def Call.pending (c : Call) : Bool :=
  c.chat && match c.phase with
    | .done o => o.confirms
    | _ => false

/-- The router lists no model but the one it holds. -/
def Truthful (w : World) : Label → Prop
  | .act _ (.probe reply) => ∀ m ∈ routerLoaded reply, w.resident = some m
  | _ => True

/-- What the router holds after it has answered a warm request for `profile`. -/
def residentAfter (profile : Str) (reply : WarmReply) (after : Option Str) : Option Str :=
  match warmResult reply with
  | .ok _ => some profile
  | .error _ => after

/-- No load takes the model from a pending chat. -/
def Spares (w : World) : Label → Prop
  | .act i (.answer reply _ after) => ∀ c ∈ w.calls[i]?, ∀ d ∈ w.calls, d.pending = true →
      residentAfter c.req.profile reply after = some d.req.profile
  | _ => True

/-- A chat that forwards finds its model resident. -/
def FindsResident (w : World) : Label → Prop
  | .act i .forward => ∀ c ∈ w.calls[i]?, c.pending = true → w.resident = some c.req.profile
  | _ => True

instance (w : World) (l : Label) : Decidable (Truthful w l) :=
  match l with
  | .act _ (.probe reply) =>
    inferInstanceAs (Decidable (∀ m ∈ routerLoaded reply, w.resident = some m))
  | .call .. | .act _ .lookup | .act _ .acquire | .act _ (.judge _) | .act _ .warm
  | .act _ (.answer ..) | .act _ .announce | .act _ .finish | .act _ .forward =>
    inferInstanceAs (Decidable True)

instance (w : World) (l : Label) : Decidable (Spares w l) :=
  match l with
  | .act i (.answer reply _ after) => inferInstanceAs (Decidable (∀ c ∈ w.calls[i]?,
      ∀ d ∈ w.calls, d.pending = true →
        residentAfter c.req.profile reply after = some d.req.profile))
  | .call .. | .act _ .lookup | .act _ .acquire | .act _ (.probe _) | .act _ (.judge _)
  | .act _ .warm | .act _ .announce | .act _ .finish | .act _ .forward =>
    inferInstanceAs (Decidable True)

instance (w : World) (l : Label) : Decidable (FindsResident w l) :=
  match l with
  | .act i .forward => inferInstanceAs (Decidable (∀ c ∈ w.calls[i]?,
      c.pending = true → w.resident = some c.req.profile))
  | .call .. | .act _ .lookup | .act _ .acquire | .act _ (.probe _) | .act _ (.judge _)
  | .act _ .warm | .act _ (.answer ..) | .act _ .announce | .act _ .finish =>
    inferInstanceAs (Decidable True)

/-! ## What a confirmed call can rely on -/

/-- From the warm request's success, or the probe's, to the forward. -/
def Call.relies (c : Call) : Bool :=
  match c.phase with
  | .warmed .. | .announced .. => true
  | _ => c.pending

structure ResidentInv (w : World) : Prop where
  lock : LockInv w
  found : ∀ c ∈ w.calls, c.relies = true → w.resident = some c.req.profile

variable {api : Api} {w w' : World} {i j : Nat} {c d : Call} {a : Act} {l : Label}

theorem relies_of_pending (h : c.pending = true) : c.relies = true := by
  unfold Call.relies
  split <;> first | rfl | exact h

theorem pending_of_relies (h : c.relies = true) (hc : c.critical = false) : c.pending = true := by
  unfold Call.relies at h
  unfold Call.critical at hc
  split at h
  · rw [‹c.phase = _›] at hc
    cases hc
  · rw [‹c.phase = _›] at hc
    cases hc
  · exact h

theorem ResidentInv.pending_of_other (h : ResidentInv w) (hi : w.calls[i]? = some c)
    (hp : c.phase.critical = true) (hc : c.relies = false) (hd : d ∈ w.calls)
    (hrel : d.relies = true) : d.pending = true := by
  refine pending_of_relies hrel ?_
  by_contra hcrit
  obtain ⟨j, hj⟩ := List.mem_iff_getElem?.mp hd
  have hij : i = j := Pool.Guarded.unique h.lock hi hj hp (Bool.not_eq_false _ ▸ hcrit)
  subst hij
  rw [hi] at hj
  cases hj
  rw [hc] at hrel
  cases hrel

theorem ResidentInv.move (h : ResidentInv w) (ht : Truthful w (.act i a))
    (hs : Spares w (.act i a)) (hi : w.calls[i]? = some c) (hm : Move api w i c a w') :
    ∀ d ∈ w'.calls, d.relies = true → w'.resident = some d.req.profile := by
  have hmem : c ∈ w.calls := List.mem_of_getElem? hi
  -- a move to a phase that does not rely on the model
  have leaves {q : Phase} (hq : Call.relies { c with phase := q } = false) :
      ∀ e ∈ w.calls.set i { c with phase := q }, e.relies = true →
        w.resident = some e.req.profile :=
    Pool.forall_set h.found fun hrel => absurd (hq.symm.trans hrel) Bool.false_ne_true
  -- a move between phases that do
  have stays {q : Phase} (hc : c.relies = true) :
      ∀ e ∈ w.calls.set i { c with phase := q }, e.relies = true →
        w.resident = some e.req.profile :=
    Pool.forall_set h.found fun _ => h.found c hmem hc
  cases hm with
  | unknown _ _ | refuse _ _ | unsent _ _ =>
    exact leaves (by simp [Call.relies, Call.pending, EnsureOutcome.confirms])
  | found _ _ | acquire _ _ | absent _ _ | passed _ _ | sent _ _ =>
    exact leaves (by simp [Call.relies, Call.pending])
  | resident _ hr => exact Pool.forall_set h.found fun _ => ht _ hr
  | loaded hp hok =>
    refine Pool.forall_set (fun e he hrel => ?_) fun _ => rfl
    have hpend : e.pending = true :=
      h.pending_of_other hi (by rw [hp]; rfl) (by simp [Call.relies, Call.pending, hp]) he hrel
    rw [← hs c hi e he hpend, residentAfter, hok]
  | failed hp herr =>
    refine Pool.forall_set (fun e he hrel => ?_) fun hrel => ?_
    · have hpend : e.pending = true :=
        h.pending_of_other hi (by rw [hp]; rfl) (by simp [Call.relies, Call.pending, hp]) he hrel
      rw [← hs c hi e he hpend, residentAfter, herr]
    · simp [Call.relies, Call.pending, EnsureOutcome.confirms] at hrel
  | announce hp | finish hp => exact stays (by rw [Call.relies, hp])
  | forward hp hc ho =>
    have hres : w.resident = some c.req.profile :=
      h.found c hmem (relies_of_pending (by simp [Call.pending, hp, hc, ho]))
    intro e he hrel
    rw [← hres]
    exact leaves (by simp [Call.relies, Call.pending]) e he hrel

theorem ResidentInv.step (h : ResidentInv w) (hl : Truthful w l ∧ Spares w l)
    (hs : ControlApi.step api w l = some w') : ResidentInv w' := by
  refine ⟨h.lock.step hs, ?_⟩
  rcases step_cases hs with ⟨req, chat, -, rfl⟩ | ⟨i, a, c, rfl, hi, hm⟩
  · refine Pool.forall_concat h.found fun hrel => ?_
    simp [Call.relies, Call.pending] at hrel
  · exact h.move hl.1 hl.2 hi hm

theorem ResidentInv.init (resident : Option Str) : ResidentInv (World.init resident) where
  lock := Pool.Guarded.nil
  found := by simp [World.init]

theorem ResidentInv.findsResident (h : ResidentInv w) (l : Label) : FindsResident w l := by
  unfold FindsResident
  split
  · intro c hc hpend
    exact h.found c (List.mem_of_getElem? hc) (relies_of_pending hpend)
  · trivial

/-! ## Every chat finds its model, unless another load takes it -/

/-- **Ensured models stay** along every run whose loads spare the pending chats. -/
theorem finds_resident {resident : Option Str} {as : List Label}
    (h : Machine.Along (step api) (fun w l => Truthful w l ∧ Spares w l) (World.init resident) as) :
    Machine.Along (step api) FindsResident (World.init resident) as :=
  Machine.along_of_inv (P := ResidentInv) (fun _ _ _ hinv hl hs => hinv.step hl hs)
    (fun _ l hinv _ => hinv.findsResident l) h (.init resident)

/-- A chat for `A` that the router already holds, and an ensure of `B`. -/
def swapCalls : List Label :=
  [.call ⟨"A", none⟩ true, .call ⟨"B", none⟩ false, .act 0 .lookup, .act 0 .acquire,
    .act 0 (.probe (some (listed "A"))), .act 1 .lookup, .act 1 .acquire]

/-- The ensure loads `B`. -/
def swapLoad (models : Json) : List Label :=
  [.act 1 (.probe (some models)), .act 1 (.judge card24), .act 1 .warm,
    .act 1 (.answer (.ok ⟨200, "200 OK"⟩) 9 none)]

theorem finds_resident_pair :
    (Machine.run (step pairApi) (World.init (some "A"))
      (swapCalls ++ .act 0 .forward :: swapLoad (listed "A"))).isSome = true ∧
    Machine.Along (step pairApi) FindsResident (World.init (some "A"))
      (swapCalls ++ .act 0 .forward :: swapLoad (listed "A")) :=
  ⟨by decide +kernel, finds_resident (by decide +kernel)⟩

/-- With a truthful router and every request successful, `A`'s chat is forwarded to a router that
holds `B`. -/
theorem not_finds_resident_pair :
    (Machine.run (step pairApi) (World.init (some "A"))
      (swapCalls ++ swapLoad (listed "A") ++ [.act 0 .forward])).isSome = true ∧
    Machine.Along (step pairApi) Truthful (World.init (some "A"))
      (swapCalls ++ swapLoad (listed "A") ++ [.act 0 .forward]) ∧
    ¬ Machine.Along (step pairApi) FindsResident (World.init (some "A"))
      (swapCalls ++ swapLoad (listed "A") ++ [.act 0 .forward]) := by
  decide +kernel

/-- A step spares the pending chats exactly if each of them, forwarding next, finds its model. -/
theorem spares_iff (h : ResidentInv w) (ht : Truthful w l) (hs : step api w l = some w') :
    Spares w l ↔ ∀ j, FindsResident w' (.act j .forward) := by
  constructor
  · intro hsp j
    exact (h.step ⟨ht, hsp⟩ hs).findsResident _
  · intro hall
    rcases step_cases hs with ⟨req, chat, rfl, rfl⟩ | ⟨i, a, c, rfl, hi, hm⟩
    · trivial
    unfold Spares
    split
    · rename_i hlab
      cases hlab
      rintro c' hc' d hd hpend
      cases hi.symm.trans hc'
      obtain ⟨j, hj⟩ := List.mem_iff_getElem?.mp hd
      have other {v : F64} (hp : c.phase = .warming v) {q : Phase} :
          (w.calls.set i { c with phase := q })[j]? = some d := by
        have hij : i ≠ j := by
          rintro rfl
          cases hi.symm.trans hj
          simp [Call.pending, hp] at hpend
        rw [List.getElem?_set_ne hij, hj]
      cases hm with
      | loaded hp hok =>
        rw [residentAfter, hok]
        exact hall j d (other hp) hpend
      | failed hp herr =>
        rw [residentAfter, herr]
        exact hall j d (other hp) hpend
    · trivial

end Saltnitor.ControlApi
