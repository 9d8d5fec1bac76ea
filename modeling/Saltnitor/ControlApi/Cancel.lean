import Saltnitor.ControlApi.Interleave
import Saltnitor.Main.HotSwap

/-!
# Dropped handlers

When a client goes away, the server drops the future of `h_ensure` or `h_chat` at
the await it stands at; `h_ensure_stream` runs its ensure as a task of its own, which
nobody drops. `Server.step` adds this to the steps of `Interleave`: a dropped call takes no
further step, and its guard gives the lock back. A future dropped while its
`ActiveModelSet` event waits for room in the channel takes the event with it, and
`announced_iff` says that this is the only way to lose one.
-/

namespace Saltnitor.ControlApi

open Rust

/-- The handlers that call `ensure`. -/
inductive Caller where
  | hEnsure
  | hEnsureStream
  | hChat
  deriving DecidableEq

structure Task where
  call : Call
  caller : Caller
  /-- The future is gone. -/
  dropped : Bool
  deriving DecidableEq

namespace Task

def new (caller : Caller) (req : EnsureRequest) : Task :=
  ⟨{ req, chat := decide (caller = .hChat), phase := .called }, caller, false⟩

/-- The handler's future stands at an await. `h_chat` awaits the router after its ensure. -/
def awaits (t : Task) : Bool :=
  match t.caller with
  | .hEnsure => t.call.outcome.isNone
  | .hEnsureStream => false
  | .hChat => t.call.outcome.all EnsureOutcome.confirms

def critical (t : Task) : Bool := t.call.critical && !t.dropped

/-- The event the task is about to send. -/
def unannounced (t : Task) : Option Str := if t.dropped then none else t.call.unannounced

/-- An ensure runs: it has not returned, and it was not dropped. -/
def running (t : Task) : Bool := t.call.outcome.isNone && !t.dropped

end Task

/-- A `World` whose calls are known with their futures. -/
structure Server where
  tasks : List Task
  lock : Option Nat
  events : List Str
  resident : Option Str
  warms : List (Nat × Str)
  successes : List Str
  deriving DecidableEq

namespace Server

def init (resident : Option Str) : Server :=
  { tasks := [], lock := none, events := [], resident, warms := [], successes := [] }

def world (s : Server) : World where
  calls := s.tasks.map Task.call
  lock := s.lock
  events := s.events
  resident := s.resident
  warms := s.warms
  successes := s.successes

/-- Task `i`, which is `t`, has moved and left the world `w`. -/
def advance (s : Server) (i : Nat) (t : Task) (w : World) : Server where
  tasks := s.tasks.set i { t with call := (w.calls[i]?).getD t.call }
  lock := w.lock
  events := w.events
  resident := w.resident
  warms := w.warms
  successes := w.successes

/-- The future of task `i` is dropped, and the guard with it. A warm request in flight leaves the
router with `after`. -/
def cut (s : Server) (i : Nat) (t : Task) (after : Option Str) : Server :=
  { s with
    tasks := s.tasks.set i { t with dropped := true }
    lock := if s.lock = some i then none else s.lock
    resident := match t.call.phase with
      | .warming _ => after
      | _ => s.resident }

end Server

inductive ServerLabel where
  | call (caller : Caller) (req : EnsureRequest)
  | act (i : Nat) (a : Act)
  | drop (i : Nat) (after : Option Str)

def Server.step (api : Api) (s : Server) : ServerLabel → Option Server
  | .call caller req => some { s with tasks := s.tasks ++ [.new caller req] }
  | .act i a => s.tasks[i]?.bind fun t =>
    if t.dropped then none else (next api s.world i t.call a).map (s.advance i t)
  | .drop i after => s.tasks[i]?.bind fun t =>
    if t.awaits && !t.dropped then some (s.cut i t after) else none

namespace Server

/-- The events that running calls are about to send. -/
def pending (s : Server) : List Str := s.tasks.filterMap Task.unannounced

/-- No ensure is running. -/
def Idle (s : Server) : Prop := ∀ t ∈ s.tasks, t.running = false

instance (s : Server) : Decidable s.Idle :=
  inferInstanceAs (Decidable (∀ t ∈ s.tasks, t.running = false))

/-- Each successful answer has had its one event, in order, but for those about to be sent. -/
def Announced (s : Server) : Prop := s.successes = s.events ++ s.pending

instance (s : Server) : Decidable s.Announced := inferInstanceAs (Decidable (_ = _))

/-- The step drops a call that has its answer and whose event waits to be sent. -/
def Loses (s : Server) : ServerLabel → Bool
  | .drop i _ => (s.tasks[i]?.bind Task.unannounced).isSome
  | _ => false

end Server

/-! ## What a step can do -/

variable {api : Api} {w w' : World} {i : Nat} {c d : Call} {a : Act}
  {s u : Server} {t : Task} {l : ServerLabel} {ls : List ServerLabel}

theorem Server.step_cases (h : Server.step api s l = some u) :
    (∃ caller req, l = .call caller req ∧ u = { s with tasks := s.tasks ++ [.new caller req] }) ∨
    (∃ i a t w, l = .act i a ∧ s.tasks[i]? = some t ∧ t.dropped = false ∧
      Move api s.world i t.call a w ∧ u = s.advance i t w) ∨
    ∃ i after t, l = .drop i after ∧ s.tasks[i]? = some t ∧ t.awaits = true ∧
      t.dropped = false ∧ u = s.cut i t after := by
  cases l with
  | call caller req => exact .inl ⟨caller, req, rfl, (Option.some.inj h).symm⟩
  | act i a =>
    obtain ⟨t, ht, h⟩ := Option.bind_eq_some_iff.mp h
    split at h
    · cases h
    · rename_i hd
      obtain ⟨w, hn, rfl⟩ := Option.map_eq_some_iff.mp h
      exact .inr (.inl ⟨i, a, t, w, rfl, ht, by simpa using hd, move_of_next hn, rfl⟩)
  | drop i after =>
    obtain ⟨t, ht, h⟩ := Option.bind_eq_some_iff.mp h
    split at h
    · rename_i hd
      cases h
      rw [Bool.and_eq_true, Bool.not_eq_true'] at hd
      exact .inr (.inr ⟨i, after, t, rfl, ht, hd.1, hd.2, rfl⟩)
    · cases h

theorem advance_tasks {t : Task} (ht : s.tasks[i]? = some t) (hw : w.calls = s.world.calls.set i d) :
    (s.advance i t w).tasks = s.tasks.set i { t with call := d } := by
  have hi : w.calls[i]? = some d := by
    rw [hw]
    exact Pool.getElem?_set_self (b := t.call) (by rw [Server.world, List.getElem?_map, ht]; rfl)
  rw [Server.advance, hi]
  rfl

theorem step_world {i : Nat} {a : Act} (h : Server.step api s (.act i a) = some u) :
    step api s.world (.act i a) = some u.world := by
  obtain ⟨t, ht, h⟩ := Option.bind_eq_some_iff.mp h
  split at h
  · cases h
  · obtain ⟨w, hn, rfl⟩ := Option.map_eq_some_iff.mp h
    have hi : s.world.calls[i]? = some t.call := by rw [Server.world, List.getElem?_map, ht]; rfl
    obtain ⟨d, hd⟩ := (move_of_next hn).calls_eq
    refine Option.bind_eq_some_iff.mpr ⟨t.call, hi, hn.trans (congrArg some ?_)⟩
    have hc : w.calls = ((s.advance i t w).tasks).map Task.call := by
      rw [advance_tasks ht hd, List.map_set, hd]
      rfl
    cases w
    simp only [Server.world, World.mk.injEq]
    exact ⟨hc, rfl, rfl, rfl, rfl, rfl⟩

/-! ## The lock -/

theorem Task.unannounced_of_not_critical {t : Task} (h : t.critical = false) :
    t.unannounced = none := by
  unfold Task.critical at h
  unfold Task.unannounced
  split
  · rfl
  · rename_i hd
    exact Call.unannounced_of_not_critical (by simpa [hd] using h)

theorem Task.running_of_critical {t : Task} (h : t.critical = true) : t.running = true := by
  rw [Task.critical, Bool.and_eq_true] at h
  rw [Task.running, Bool.and_eq_true]
  refine ⟨?_, h.2⟩
  rw [Option.isNone_iff_eq_none]
  by_contra ho
  obtain ⟨o, ho⟩ := Option.ne_none_iff_exists'.mp ho
  have hc := critical_of_outcome ho
  rw [h.1] at hc
  cases hc

/-- The lock is held by the call in the critical section whose future is there. -/
def Server.LockInv (s : Server) : Prop := Pool.Guarded Task.critical s.tasks s.lock

namespace Server.LockInv

theorem advance (h : s.LockInv) (ht : s.tasks[i]? = some t) (hd : t.dropped = false)
    (hm : Move api s.world i t.call a w) : (s.advance i t w).LockInv := by
  obtain ⟨d, hcalls, hlock, -⟩ := hm.effect
  unfold Server.LockInv
  rw [advance_tasks ht hcalls]
  refine Pool.Guarded.move h ht (hlock.of_eq ?_ ?_)
  · rw [Task.critical, hd]
    exact Bool.and_true _
  · rw [Task.critical, hd]
    exact Bool.and_true _

/-- The guard of a dropped future gives the lock back, wherever the future stood. -/
theorem cut (h : s.LockInv) (ht : s.tasks[i]? = some t) (after : Option Str) :
    (s.cut i t after).LockInv := by
  have hgone : ({ t with dropped := true } : Task).critical = false := Bool.and_false _
  change Pool.Guarded _ (s.tasks.set i _) (if s.lock = some i then none else s.lock)
  cases hc : t.critical with
  | true =>
    rw [if_pos (h.holds i t ht hc)]
    exact Pool.Guarded.release h ht hc hgone
  | false =>
    have hl : s.lock ≠ some i := by
      intro hl
      obtain ⟨u, hu, hcrit⟩ := h.held i hl
      rw [ht] at hu
      cases hu
      rw [hc] at hcrit
      cases hcrit
    rw [if_neg hl]
    exact Pool.Guarded.keep h ht (hgone.trans hc.symm)

theorem step (h : s.LockInv) (hs : Server.step api s l = some u) : u.LockInv := by
  rcases Server.step_cases hs with ⟨caller, req, -, rfl⟩ | ⟨i, a, t, w, -, ht, hd, hm, rfl⟩ |
    ⟨i, after, t, -, ht, -, -, rfl⟩
  · exact Pool.Guarded.concat h rfl
  · exact h.advance ht hd hm
  · exact h.cut ht after

/-- What is about to be sent is what the holder of the lock is about to send. -/
theorem pending_eq (h : s.LockInv) (ht : s.tasks[i]? = some t) (hc : t.critical = true) :
    s.pending = t.unannounced.toList :=
  Pool.Guarded.filterMap_eq h (fun _ => Task.unannounced_of_not_critical) ht hc

theorem idle (h : s.LockInv) (hi : s.Idle) : s.lock = none ∧ s.pending = [] := by
  have hcrit : ∀ t ∈ s.tasks, t.critical = false := by
    intro t ht
    by_contra hc
    have hrun := Task.running_of_critical (Bool.not_eq_false _ ▸ hc)
    rw [hi t ht] at hrun
    cases hrun
  constructor
  · cases hl : s.lock with
    | none => rfl
    | some i =>
      obtain ⟨t, ht, hc⟩ := h.held i hl
      rw [hcrit t (List.mem_of_getElem? ht)] at hc
      cases hc
  · exact List.filterMap_eq_nil_iff.mpr fun t ht => Task.unannounced_of_not_critical (hcrit t ht)

end Server.LockInv

/-! ## The events -/

/-- The successes are those told, or lost, and the one in hand; none is lost where no step loses
one. -/
structure Told (api : Api) (resident : Option Str) (ls : List ServerLabel) (s : Server) : Prop where
  lock : s.LockInv
  told : ∃ told, s.successes = told ++ s.pending ∧ s.events.Sublist told ∧
    (told = s.events ↔
      Machine.Along (Server.step api) (fun s l => s.Loses l = false) (.init resident) ls)

namespace Told

variable {resident : Option Str}

theorem quiet (h : Told api resident ls s)
    (hr : Machine.run (Server.step api) (.init resident) ls = some s) (hl : u.LockInv)
    (hlose : s.Loses l = false) (he : u.events = s.events) (hsucc : u.successes = s.successes)
    (hp : u.pending = s.pending) : Told api resident (ls ++ [l]) u := by
  obtain ⟨told, hs, hsub, hall⟩ := h.told
  refine ⟨hl, told, by rw [hsucc, hp, hs], he ▸ hsub, ?_⟩
  rw [Machine.along_concat hr, he, hall]
  exact (and_iff_left hlose).symm

theorem advance (h : Told api resident ls s)
    (hr : Machine.run (Server.step api) (.init resident) ls = some s) (ht : s.tasks[i]? = some t)
    (hd : t.dropped = false) (hm : Move api s.world i t.call a w) :
    Told api resident (ls ++ [.act i a]) (s.advance i t w) := by
  have hl := h.lock.advance ht hd hm
  obtain ⟨d, hcalls, -, hev⟩ := hm.effect
  have htasks := advance_tasks ht hcalls
  have hi : (s.advance i t w).tasks[i]? = some { t with call := d } := by
    rw [htasks]
    exact Pool.getElem?_set_self ht
  have hcrit {c : Call} (hc : c.critical = true) : ({ t with call := c } : Task).critical = true := by
    rw [Task.critical, hc, hd]
    rfl
  have hun (c : Call) : ({ t with call := c } : Task).unannounced = c.unannounced := by
    rw [Task.unannounced, hd]
    rfl
  cases hev with
  | quiet he hs hu _ =>
    refine h.quiet hr hl rfl he hs ?_
    rw [Server.pending, htasks]
    exact Pool.filterMap_set_eq ht (by rw [hun d, hu, ← hun t.call])
  | loads hcc hdc he hs hu hu' _ =>
    obtain ⟨told, hsucc, hsub, hall⟩ := h.told
    rw [h.lock.pending_eq ht (hcrit hcc), hun t.call, hu, Option.toList_none,
      List.append_nil] at hsucc
    refine ⟨hl, told, ?_, ?_, ?_⟩
    · rw [hl.pending_eq hi (hcrit hdc), hun d, hu', ← hsucc]
      exact hs
    · change w.events.Sublist _
      rw [he]
      exact hsub
    · change told = w.events ↔ _
      rw [Machine.along_concat hr, he, show s.world.events = s.events from rfl, hall]
      exact (and_iff_left rfl).symm
  | @announces m hcc hdc he hs hu hu' _ _ =>
    obtain ⟨told, hsucc, hsub, hall⟩ := h.told
    rw [h.lock.pending_eq ht (hcrit hcc), hun t.call, hu, Option.toList_some] at hsucc
    refine ⟨hl, told ++ [m], ?_, ?_, ?_⟩
    · rw [hl.pending_eq hi (hcrit hdc), hun d, hu', Option.toList_none, List.append_nil, ← hsucc]
      exact hs
    · change w.events.Sublist _
      rw [he]
      exact hsub.append_right _
    · change _ = w.events ↔ _
      rw [Machine.along_concat hr, he, show s.world.events = s.events from rfl,
        List.append_left_inj, hall]
      exact (and_iff_left rfl).symm

/-- A drop loses what its call was about to send, and no more. -/
theorem cut (h : Told api resident ls s)
    (hr : Machine.run (Server.step api) (.init resident) ls = some s) (ht : s.tasks[i]? = some t)
    (after : Option Str) :
    Told api resident (ls ++ [.drop i after]) (s.cut i t after) := by
  have hl := h.lock.cut ht after
  have hgone : ({ t with dropped := true } : Task).unannounced = none := rfl
  cases hu : t.unannounced with
  | none =>
    refine h.quiet hr hl (by rw [Server.Loses, ht, Option.bind_some, hu]; rfl) rfl rfl ?_
    exact Pool.filterMap_set_eq ht (hgone.trans hu.symm)
  | some m =>
    have hcrit : t.critical = true := by
      by_contra hc
      rw [Task.unannounced_of_not_critical (by simpa using hc)] at hu
      cases hu
    have hnone : (s.cut i t after).pending = [] := by
      rw [Server.pending]
      refine (Pool.filterMap_eq_toList (Pool.getElem?_set_self ht) ?_).trans rfl
      intro j c hj hij
      rcases Pool.getElem?_set_cases hj with ⟨rfl, -⟩ | ⟨-, hj⟩
      · exact absurd rfl hij
      · refine Task.unannounced_of_not_critical ?_
        by_contra hc
        exact hij (Pool.Guarded.unique h.lock hj ht (by simpa using hc) hcrit)
    obtain ⟨told, hsucc, hsub, hall⟩ := h.told
    rw [h.lock.pending_eq ht hcrit, hu] at hsucc
    refine ⟨hl, told ++ [m], ?_, hsub.trans (List.sublist_append_left _ _), ?_⟩
    · rw [hnone, List.append_nil]
      exact hsucc
    · rw [Machine.along_concat hr]
      constructor
      · intro heq
        have hlen := hsub.length_le
        rw [← show told ++ [m] = s.events from heq, List.length_append,
          List.length_singleton] at hlen
        omega
      · rintro ⟨-, hlose⟩
        rw [Server.Loses, ht, Option.bind_some, hu] at hlose
        cases hlose

theorem step (h : Told api resident ls s)
    (hr : Machine.run (Server.step api) (.init resident) ls = some s)
    (hs : Server.step api s l = some u) :
    Told api resident (ls ++ [l]) u := by
  rcases Server.step_cases hs with ⟨caller, req, rfl, rfl⟩ | ⟨i, a, t, w, rfl, ht, hd, hm, rfl⟩ |
    ⟨i, after, t, rfl, ht, -, -, rfl⟩
  · exact h.quiet hr (h.lock.step hs) rfl rfl rfl (Pool.filterMap_concat_eq rfl)
  · exact h.advance hr ht hd hm
  · exact h.cut hr ht after

theorem run (hr : Machine.run (Server.step api) (.init resident) ls = some s) :
    Told api resident ls s := by
  refine Machine.run_history ?_ (fun _ _ _ _ hr h hs => h.step hr hs) hr
  exact ⟨Pool.Guarded.nil, [], rfl, .slnil, iff_of_true rfl trivial⟩

end Told

/-! ## The model in the TUI -/

/-- A TUI that has handled the events, and met nothing else that selects a model, has the model
that loaded last as its active one, and the tuner writes that model's section. -/
def Server.TuiInStep (s : Server) : Prop :=
  ∀ (fmtF32 : Float32 → Tuner.Word) (tui tui' : Main.State) (es : List Main.Event),
    Machine.run (Main.State.handle fmtF32) tui es = some tui' →
      (Main.State.picks fmtF32 tui es).filter (· ≠ .nothing) = s.events.map .resident →
        tui'.selection.activeModel = s.successes.getLast?.getD tui.selection.activeModel ∧
          ∀ path section_ kv svc,
            .tuner path section_ kv svc ∈ (tui'.cleared.applyTuner fmtF32).spawned →
              section_ = s.successes.getLast?.getD tui.selection.activeModel

theorem tuiInStep_of_events (h : s.events = s.successes) : s.TuiInStep := by
  intro fmtF32 tui tui' es hr hp
  have hactive : tui'.selection.activeModel = s.successes.getLast?.getD tui.selection.activeModel := by
    rw [Main.State.activeModel_run hr, ← Main.Selection.foldl_pick_filter, hp, h,
      Main.Selection.activeModel_resident]
  refine ⟨hactive, fun _ _ _ _ hm => ?_⟩
  rw [← hactive]
  exact Main.State.tuner_section (s := tui'.cleared) hm rfl

/-- **Drops.** In every run the lock is free when no ensure runs, and every event is for a warm
request of its own that succeeded. Every success has its event exactly when no future is dropped
while its event waits to be sent; then the TUI is in step once no ensure runs. -/
theorem announced_iff {resident : Option Str}
    (hr : Machine.run (Server.step api) (.init resident) ls = some s) :
    (s.Idle → s.lock = none) ∧ s.events.Sublist s.successes ∧
      (s.Announced ↔
        Machine.Along (Server.step api) (fun s l => s.Loses l = false) (.init resident) ls) ∧
      (s.Announced → s.Idle → s.events = s.successes ∧ s.TuiInStep) := by
  obtain ⟨hl, told, hsucc, hsub, hall⟩ := Told.run hr
  refine ⟨fun hi => (hl.idle hi).1, ?_, ?_, ?_⟩
  · rw [hsucc]
    exact hsub.trans (List.sublist_append_left _ _)
  · rw [Server.Announced, hsucc, List.append_left_inj, hall]
  · intro ha hi
    have he : s.events = s.successes := by
      rw [ha, (hl.idle hi).2, List.append_nil]
    exact ⟨he, tuiInStep_of_events he⟩

/-- A load of `A`, up to the answer. -/
def loadA (caller : Caller) : List ServerLabel :=
  [.call caller ⟨"A", none⟩, .act 0 .lookup, .act 0 .acquire, .act 0 (.probe none),
    .act 0 (.judge card24), .act 0 .warm, .act 0 (.answer (.ok ⟨200, "200 OK"⟩) 9 none)]

/-- The first call is dropped once its event is sent, the second while its request is in flight. -/
def sampleDrops : List ServerLabel :=
  loadA .hEnsure ++ [.act 0 .announce, .drop 0 none, .call .hChat ⟨"B", none⟩, .act 1 .lookup,
    .act 1 .acquire, .act 1 (.probe (some (listed "A"))), .act 1 (.judge card24), .act 1 .warm,
    .drop 1 (some "A")]

theorem announced_iff_twoDrops : ∃ s,
    Machine.run (Server.step pairApi) (.init none) sampleDrops = some s ∧
      s.lock = none ∧ s.events = ["A".toList] ∧ s.successes = ["A".toList] ∧ s.TuiInStep := by
  have hrun : ((Machine.run (Server.step pairApi) (.init none) sampleDrops).any fun s =>
      decide (s.Idle ∧ s.events = ["A".toList] ∧ s.successes = ["A".toList])) = true := by
    decide +kernel
  have hkept : Machine.Along (Server.step pairApi) (fun s l => s.Loses l = false) (.init none)
      sampleDrops := by
    decide +kernel
  obtain ⟨s, hr, hs⟩ := (Option.any_eq_true _ _).mp hrun
  obtain ⟨hi, he, hsucc⟩ := of_decide_eq_true hs
  obtain ⟨hlock, -, hall, hstep⟩ := announced_iff hr
  exact ⟨s, hr, hlock hi, he, hsucc, (hstep (hall.mpr hkept) hi).2⟩

/-- `A` has loaded, and the client goes away while the event waits for room in the channel. -/
theorem not_announced_dropped : ∃ s,
    Machine.run (Server.step pairApi) (.init none) (loadA .hEnsure ++ [.drop 0 none]) = some s ∧
      s.Idle ∧ s.resident = some "A".toList ∧ s.successes = ["A".toList] ∧ s.events = [] ∧
      ¬ s.Announced ∧ ¬ s.TuiInStep := by
  have hrun : ((Machine.run (Server.step pairApi) (.init none) (loadA .hEnsure ++ [.drop 0 none])).any
      fun s => decide (s.Idle ∧ s.resident = some "A".toList ∧ s.successes = ["A".toList] ∧
        s.events = [] ∧ ¬ s.Announced)) = true := by
    decide +kernel
  obtain ⟨s, hr, hs⟩ := (Option.any_eq_true _ _).mp hrun
  obtain ⟨hi, hres, hsucc, he, hn⟩ := of_decide_eq_true hs
  refine ⟨s, hr, hi, hres, hsucc, he, hn, fun hstep => ?_⟩
  have htui := (hstep Tuner.fmtOne (.new Main.sampleLaunch) _ [] rfl (by rw [he]; rfl)).1
  rw [hsucc] at htui
  exact absurd htui (by decide +kernel)

end Saltnitor.ControlApi
