import Saltnitor.ControlApi.Chat
import Saltnitor.Lib.Machine
import Saltnitor.Lib.Pool

/-!
# Concurrent ensures

`step` interleaves any number of `ensure` calls, some of them made by `h_chat`,
which hands its bytes to the router afterwards. Each await of the code is a step
of its own; the router's and the host's answers come with the steps. `Move`
says once what a step does, and every invariant is derived from it. The ghosts
of a `World` are the router's resident model, the warm requests sent and those
that succeeded, in order. `outcome_ensure` ties the steps to the function: each
call, however it is interleaved, returns what `ensure` returns.
-/

namespace Saltnitor.ControlApi

open Rust Http ProxyStream

/-! ## Steps -/

/-- How far a call is. The lock is held from `locked` to `announced`. -/
inductive Phase where
  | called
  | waiting (prof : ProfileMeta)
  | locked (prof : ProfileMeta)
  /-- The router did not list the profile. -/
  | probed (prof : ProfileMeta)
  | admitted (estVram : F64)
  /-- The warm request is in flight. -/
  | warming (estVram : F64)
  | warmed (estVram : F64) (loadMs : Nat)
  | announced (estVram : F64) (loadMs : Nat)
  | done (o : EnsureOutcome)
  /-- A chat that has handed its bytes to the router. -/
  | forwarded (o : EnsureOutcome)
  deriving DecidableEq

structure Call where
  req : EnsureRequest
  /-- A call of `h_chat`. -/
  chat : Bool
  phase : Phase
  deriving DecidableEq

structure World where
  calls : List Call
  /-- Who holds `ensure_lock`. -/
  lock : Option Nat
  /-- The `ActiveModelSet` events delivered. -/
  events : List Str
  resident : Option Str
  /-- The warm requests sent: who sent them and for which profile. -/
  warms : List (Nat × Str)
  successes : List Str
  deriving DecidableEq

def World.init (resident : Option Str) : World :=
  { calls := [], lock := none, events := [], resident, warms := [], successes := [] }

inductive Act where
  | lookup
  | acquire
  | probe (reply : Option Json)
  | judge (t : Telemetry)
  | warm
  /-- The warm request's answer; after a failure the router holds `after`. -/
  | answer (reply : WarmReply) (loadMs : Nat) (after : Option Str)
  | announce
  | finish
  | forward

inductive Label where
  | call (req : EnsureRequest) (chat : Bool)
  | act (i : Nat) (a : Act)

def World.put (w : World) (i : Nat) (c : Call) (p : Phase) : World :=
  { w with calls := w.calls.set i { c with phase := p } }

/-- The call returns and its guard is dropped. -/
def World.release (w : World) (i : Nat) (c : Call) (o : EnsureOutcome) : World :=
  { w.put i c (.done o) with lock := none }

/-- An outcome after which `h_chat` forwards. -/
def EnsureOutcome.confirms : EnsureOutcome → Bool
  | .loaded .. | .alreadyResident .. => true
  | _ => false

/-- One step of call `i`. -/
def next (api : Api) (w : World) (i : Nat) (c : Call) : Act → Option World
  | .lookup =>
    match c.phase, api.profile c.req.profile with
    | .called, none => some (w.put i c
        (.done (.bad (("unknown profile '" : Str) ++ c.req.profile ++ ("'" : Str)))))
    | .called, some prof => some (w.put i c (.waiting prof))
    | _, _ => none
  | .acquire =>
    match c.phase, w.lock with
    | .waiting prof, none => some { w.put i c (.locked prof) with lock := some i }
    | _, _ => none
  | .probe reply =>
    match c.phase with
    | .locked prof =>
      if (routerLoaded reply).contains c.req.profile then
        some (w.release i c (.alreadyResident c.req.profile api.inferEndpoint))
      else some (w.put i c (.probed prof))
    | _ => none
  | .judge t =>
    match c.phase with
    | .probed prof =>
      match oracleGate .none c.req.force (oracle api.reserves t prof) with
      | .error info => some (w.release i c (.oom info))
      | .ok (v, _) => some (w.put i c (.admitted v))
    | _ => none
  | .warm =>
    match c.phase, warmRequest api c.req.profile with
    | .admitted _, none => some (w.release i c
        (.err (("router load failed: " : Str) ++ ("builder error" : Str))))
    | .admitted v, some _ =>
      some { w.put i c (.warming v) with warms := w.warms ++ [(i, c.req.profile)] }
    | _, _ => none
  | .answer reply loadMs after =>
    match c.phase, warmResult reply with
    | .warming v, .ok () =>
      some { w.put i c (.warmed v loadMs) with
        resident := some c.req.profile, successes := w.successes ++ [c.req.profile] }
    | .warming _, .error e => some { w.release i c
        (.err (("router load failed: " : Str) ++ e)) with resident := after }
    | _, _ => none
  | .announce =>
    match c.phase with
    | .warmed v loadMs =>
      some { w.put i c (.announced v loadMs) with events := w.events ++ [c.req.profile] }
    | _ => none
  | .finish =>
    match c.phase with
    | .announced v loadMs =>
      some (w.release i c (.loaded c.req.profile api.inferEndpoint loadMs (some v)))
    | _ => none
  | .forward =>
    match c.phase with
    | .done o =>
      if c.chat && o.confirms then
        some { w.put i c (.forwarded o) with resident := some c.req.profile }
      else none
    | _ => none

def step (api : Api) (w : World) : Label → Option World
  | .call req chat => some { w with calls := w.calls ++ [{ req, chat, phase := .called }] }
  | .act i a => (w.calls[i]?).bind fun c => next api w i c a

/-- A service with the profiles `A` and `B`. -/
def pairApi : Api where
  profiles := [("A", { model := "a.gguf", estVramGb := some (.fin 10), estRamGb := some (.fin 0) }),
    ("B", { model := "b.gguf", estVramGb := some (.fin 10), estRamGb := some (.fin 0) })]
  routerBase := "http://127.0.0.1:8080"
  inferBearer := none
  reserves := ⟨.fin 1, .fin 0⟩
  limits := ⟨0, 0, 0, 1024⟩
  profiles_nodup := by decide

/-- A model list with `m` loaded. -/
def listed (m : Str) : Json :=
  .obj [("data", .arr [.obj [("id", .str m), ("state", .str "loaded")]])]

/-- A card of 24 GiB. -/
def card24 : Telemetry := ⟨some ⟨true, "24576"⟩, none, some "MemTotal: 1048576 kB"⟩

/-! ## What a step can do -/

/-- The moves of call `i`, which is `c`. -/
inductive Move (api : Api) (w : World) (i : Nat) (c : Call) : Act → World → Prop where
  | unknown (hp : c.phase = .called) (hc : api.profile c.req.profile = none) :
      Move api w i c .lookup
        (w.put i c (.done (.bad (("unknown profile '" : Str) ++ c.req.profile ++ ("'" : Str)))))
  | found {prof : ProfileMeta} (hp : c.phase = .called)
      (hc : api.profile c.req.profile = some prof) :
      Move api w i c .lookup (w.put i c (.waiting prof))
  | acquire {prof : ProfileMeta} (hp : c.phase = .waiting prof) (hl : w.lock = none) :
      Move api w i c .acquire { w.put i c (.locked prof) with lock := some i }
  | resident {prof : ProfileMeta} {reply : Option Json} (hp : c.phase = .locked prof)
      (hr : c.req.profile ∈ routerLoaded reply) : Move api w i c (.probe reply)
        (w.release i c (.alreadyResident c.req.profile api.inferEndpoint))
  | absent {prof : ProfileMeta} {reply : Option Json} (hp : c.phase = .locked prof)
      (hr : c.req.profile ∉ routerLoaded reply) :
      Move api w i c (.probe reply) (w.put i c (.probed prof))
  | refuse {prof : ProfileMeta} {t : Telemetry} {info : OomInfo} (hp : c.phase = .probed prof)
      (ha : oracleGate .none c.req.force (oracle api.reserves t prof) = .error info) :
      Move api w i c (.judge t) (w.release i c (.oom info))
  | passed {prof : ProfileMeta} {t : Telemetry} {v : F64} {said : List Effect}
      (hp : c.phase = .probed prof)
      (ha : oracleGate .none c.req.force (oracle api.reserves t prof) = .ok (v, said)) :
      Move api w i c (.judge t) (w.put i c (.admitted v))
  | unsent {v : F64} (hp : c.phase = .admitted v)
      (hw : warmRequest api c.req.profile = none) :
      Move api w i c .warm (w.release i c
        (.err (("router load failed: " : Str) ++ ("builder error" : Str))))
  | sent {v : F64} {r : Outgoing} (hp : c.phase = .admitted v)
      (hw : warmRequest api c.req.profile = some r) : Move api w i c .warm
        { w.put i c (.warming v) with warms := w.warms ++ [(i, c.req.profile)] }
  | loaded {v : F64} {reply : WarmReply} {loadMs : Nat} {after : Option Str}
      (hp : c.phase = .warming v) (hr : warmResult reply = .ok ()) :
      Move api w i c (.answer reply loadMs after)
        { w.put i c (.warmed v loadMs) with
          resident := some c.req.profile, successes := w.successes ++ [c.req.profile] }
  | failed {v : F64} {reply : WarmReply} {loadMs : Nat} {after : Option Str} {e : Str}
      (hp : c.phase = .warming v) (hr : warmResult reply = .error e) :
      Move api w i c (.answer reply loadMs after)
        { w.release i c (.err (("router load failed: " : Str) ++ e)) with resident := after }
  | announce {v : F64} {loadMs : Nat} (hp : c.phase = .warmed v loadMs) :
      Move api w i c .announce
        { w.put i c (.announced v loadMs) with events := w.events ++ [c.req.profile] }
  | finish {v : F64} {loadMs : Nat} (hp : c.phase = .announced v loadMs) :
      Move api w i c .finish
        (w.release i c (.loaded c.req.profile api.inferEndpoint loadMs (some v)))
  | forward {o : EnsureOutcome} (hp : c.phase = .done o) (hc : c.chat = true)
      (ho : o.confirms = true) : Move api w i c .forward
        { w.put i c (.forwarded o) with resident := some c.req.profile }

variable {api : Api} {w w' : World} {i j : Nat} {c d : Call} {a : Act} {p : Phase}

theorem move_of_next (h : next api w i c a = some w') : Move api w i c a w' := by
  unfold next at h
  cases a with
  | lookup =>
    simp only at h
    split at h
    · cases h
      exact .unknown ‹_› ‹_›
    · cases h
      exact .found ‹_› ‹_›
    · cases h
  | acquire =>
    simp only at h
    split at h
    · cases h
      exact .acquire ‹_› ‹_›
    · cases h
  | probe reply =>
    simp only at h
    split at h
    · split at h
      · cases h
        exact .resident ‹_› (List.contains_iff_mem.mp ‹_›)
      · cases h
        exact .absent ‹_› (mt List.contains_iff_mem.mpr ‹_›)
    · cases h
  | judge t =>
    simp only at h
    split at h
    · split at h
      · cases h
        exact .refuse ‹_› ‹_›
      · cases h
        exact .passed ‹_› ‹_›
    · cases h
  | warm =>
    simp only at h
    split at h
    · cases h
      exact .unsent ‹_› ‹_›
    · cases h
      exact .sent ‹_› ‹_›
    · cases h
  | answer reply loadMs after =>
    simp only at h
    split at h
    · cases h
      exact .loaded ‹_› ‹_›
    · cases h
      exact .failed ‹_› ‹_›
    · cases h
  | announce =>
    simp only at h
    split at h
    · cases h
      exact .announce ‹_›
    · cases h
  | finish =>
    simp only at h
    split at h
    · cases h
      exact .finish ‹_›
    · cases h
  | forward =>
    simp only at h
    split at h
    · split at h
      · rename_i hc
        cases h
        rw [Bool.and_eq_true] at hc
        exact .forward ‹_› hc.1 hc.2
      · cases h
    · cases h

theorem Move.calls_eq (hm : Move api w i c a w') : ∃ d, w'.calls = w.calls.set i d := by
  cases hm <;> exact ⟨_, rfl⟩

theorem step_cases {l : Label} (h : step api w l = some w') :
    (∃ req chat, l = .call req chat ∧
      w' = { w with calls := w.calls ++ [{ req, chat, phase := .called }] }) ∨
    ∃ i a c, l = .act i a ∧ w.calls[i]? = some c ∧ Move api w i c a w' := by
  cases l with
  | call req chat => exact .inl ⟨req, chat, rfl, (Option.some.inj h).symm⟩
  | act i a =>
    obtain ⟨c, hc, hn⟩ := Option.bind_eq_some_iff.mp h
    exact .inr ⟨i, a, c, rfl, hc, move_of_next hn⟩

/-! ## The lock -/

/-- Between taking the lock and giving it back. -/
def Phase.critical : Phase → Bool
  | .locked _ | .probed _ | .admitted _ | .warming _ | .warmed .. | .announced .. => true
  | _ => false

def Call.critical (c : Call) : Bool := c.phase.critical

/-- The call that holds the lock. -/
def World.holder (w : World) : Option Call := w.lock.bind fun i => w.calls[i]?

/-- What a finished warm request has still to announce. -/
def Call.unannounced (c : Call) : Option Str :=
  match c.phase with
  | .warmed .. => some c.req.profile
  | _ => none

/-- The model of a `Loaded` outcome. -/
def EnsureOutcome.loadedModel : EnsureOutcome → Option Str
  | .loaded m .. => some m
  | _ => none

/-- What a call has announced. -/
def Call.announced (c : Call) : Option Str :=
  match c.phase with
  | .announced .. => some c.req.profile
  | .done o | .forwarded o => o.loadedModel
  | _ => none

/-- What a move from `c` to `d` does to the events and the successes. -/
inductive EventMove (w w' : World) (c d : Call) : Prop where
  | quiet (he : w'.events = w.events) (hs : w'.successes = w.successes)
      (hu : d.unannounced = c.unannounced) (ha : d.announced = c.announced)
  | loads {m : Str} (hc : c.critical = true) (hd : d.critical = true) (he : w'.events = w.events)
      (hs : w'.successes = w.successes ++ [m]) (hu : c.unannounced = none)
      (hu' : d.unannounced = some m) (ha : d.announced = c.announced)
  | announces {m : Str} (hc : c.critical = true) (hd : d.critical = true)
      (he : w'.events = w.events ++ [m]) (hs : w'.successes = w.successes)
      (hu : c.unannounced = some m) (hu' : d.unannounced = none) (ha : c.announced = none)
      (ha' : d.announced = some m)

/-- **What a move does** to the lock and to the events. -/
theorem Move.effect (hm : Move api w i c a w') : ∃ d, w'.calls = w.calls.set i d ∧
    Pool.LockMove Call.critical w.lock w'.lock i c d ∧ EventMove w w' c d := by
  cases hm with
  | unknown hp _ | found hp _ | absent hp _ | passed hp _ | sent hp _ | forward hp _ _ =>
    refine ⟨_, rfl, .keep rfl ?_, .quiet rfl rfl ?_ ?_⟩
    · simp only [Call.critical, hp, Phase.critical]
    · simp only [Call.unannounced, hp]
    · simp only [Call.announced, hp, EnsureOutcome.loadedModel]
  | acquire hp hl =>
    refine ⟨_, rfl, .acquire hl rfl rfl, .quiet rfl rfl ?_ ?_⟩
    · simp only [Call.unannounced, hp]
    · simp only [Call.announced, hp]
  | resident hp _ | refuse hp _ | unsent hp _ | failed hp _ | finish hp =>
    refine ⟨_, rfl, .release rfl ?_ rfl, .quiet rfl rfl ?_ ?_⟩
    · rw [Call.critical, hp]
      rfl
    · simp only [Call.unannounced, hp]
    · simp only [Call.announced, hp, EnsureOutcome.loadedModel]
  | loaded hp _ =>
    have hc : c.critical = true := by rw [Call.critical, hp]; rfl
    refine ⟨_, rfl, .keep rfl hc.symm, .loads hc rfl rfl rfl ?_ rfl ?_⟩
    · rw [Call.unannounced, hp]
    · simp only [Call.announced, hp]
  | announce hp =>
    have hc : c.critical = true := by rw [Call.critical, hp]; rfl
    refine ⟨_, rfl, .keep rfl hc.symm, .announces hc rfl rfl rfl ?_ rfl ?_ rfl⟩
    · rw [Call.unannounced, hp]
    · rw [Call.announced, hp]

/-- The lock is held by the call in the critical section. -/
def LockInv (w : World) : Prop := Pool.Guarded Call.critical w.calls w.lock

theorem LockInv.move (h : LockInv w) (hc : w.calls[i]? = some c) (hm : Move api w i c a w') :
    LockInv w' := by
  obtain ⟨d, hcalls, hlock, -⟩ := hm.effect
  unfold LockInv
  rw [hcalls]
  exact Pool.Guarded.move h hc hlock

theorem LockInv.step {l : Label} (h : LockInv w) (hs : step api w l = some w') : LockInv w' := by
  rcases step_cases hs with ⟨req, chat, -, rfl⟩ | ⟨i, a, c, -, hc, hm⟩
  · exact Pool.Guarded.concat h rfl
  · exact h.move hc hm

/-! ## Announcements -/

/-- Every success is announced, but for the one in hand; every call that loaded has announced. -/
structure EventInv (w : World) : Prop where
  lock : LockInv w
  inOrder : w.successes = w.events ++ (w.holder.bind Call.unannounced).toList
  each : w.events.Perm (w.calls.filterMap Call.announced)

theorem Call.unannounced_of_not_critical (h : c.critical = false) : c.unannounced = none := by
  unfold Call.critical at h
  unfold Call.unannounced
  split
  · rename_i hp
    rw [hp] at h
    cases h
  · rfl

/-- What the holder of the lock is about to announce is all that anyone is. -/
theorem LockInv.holder_unannounced (h : LockInv w) :
    (w.holder.bind Call.unannounced).toList = w.calls.filterMap Call.unannounced := by
  cases hl : w.lock with
  | none =>
    rw [World.holder, hl]
    symm
    refine List.filterMap_eq_nil_iff.mpr fun c hc => Call.unannounced_of_not_critical ?_
    obtain ⟨i, hi⟩ := List.mem_iff_getElem?.mp hc
    by_contra hcrit
    cases hl.symm.trans (h.holds i c hi (by simpa using hcrit))
  | some i =>
    obtain ⟨c, hc, hcrit⟩ := h.held i hl
    rw [World.holder, hl, Option.bind_some, hc, Option.bind_some]
    exact (Pool.Guarded.filterMap_eq h (fun _ => Call.unannounced_of_not_critical) hc hcrit).symm

theorem EventInv.move (h : EventInv w) (hc : w.calls[i]? = some c) (hm : Move api w i c a w') :
    EventInv w' := by
  have hl : LockInv w' := h.lock.move hc hm
  have hin := h.inOrder
  rw [h.lock.holder_unannounced] at hin
  obtain ⟨d, hcalls, -, hev⟩ := hm.effect
  have hd : w'.calls[i]? = some d := by
    rw [hcalls]
    exact Pool.getElem?_set_self hc
  -- who is in the critical section is the only one with something to announce
  have alone {w : World} {c : Call} (hl : LockInv w) (hc : w.calls[i]? = some c)
      (hcrit : c.critical = true) : w.calls.filterMap Call.unannounced = c.unannounced.toList :=
    Pool.Guarded.filterMap_eq hl (fun _ => Call.unannounced_of_not_critical) hc hcrit
  refine ⟨hl, ?_, ?_⟩
  · rw [hl.holder_unannounced]
    cases hev with
    | quiet he hs hu _ => rw [he, hs, hcalls, Pool.filterMap_set_eq hc hu, hin]
    | loads hcc hdc he hs hu hu' _ =>
      rw [alone h.lock hc hcc, hu, Option.toList_none, List.append_nil] at hin
      rw [he, hs, hin, alone hl hd hdc, hu', Option.toList_some]
    | announces hcc hdc he hs hu hu' _ _ =>
      rw [alone h.lock hc hcc, hu, Option.toList_some] at hin
      rw [he, hs, hin, alone hl hd hdc, hu', Option.toList_none, List.append_nil]
  · rw [hcalls]
    cases hev with
    | quiet he _ _ ha | loads _ _ he _ _ _ ha =>
      rw [he, Pool.filterMap_set_eq hc ha]
      exact h.each
    | announces _ _ he _ _ _ ha ha' =>
      rw [he]
      exact (h.each.append_right _).trans (Pool.filterMap_set_perm hc ha ha').symm

theorem EventInv.step {l : Label} (h : EventInv w) (hs : step api w l = some w') :
    EventInv w' := by
  have hl : LockInv w' := h.lock.step hs
  rcases step_cases hs with ⟨req, chat, -, rfl⟩ | ⟨i, a, c, -, hc, hm⟩
  · refine ⟨hl, ?_, ?_⟩
    · rw [hl.holder_unannounced, Pool.filterMap_concat_eq rfl, ← h.lock.holder_unannounced]
      exact h.inOrder
    · rw [Pool.filterMap_concat_eq rfl]
      exact h.each
  · exact h.move hc hm

theorem EventInv.init (resident : Option Str) : EventInv (World.init resident) :=
  ⟨Pool.Guarded.nil, rfl, .nil⟩

/-! ## When every call has ended -/

/-- What a call returned. -/
def Call.outcome (c : Call) : Option EnsureOutcome :=
  match c.phase with
  | .done o | .forwarded o => some o
  | _ => none

def World.AllDone (w : World) : Prop := ∀ c ∈ w.calls, c.outcome.isSome = true

instance (w : World) : Decidable w.AllDone :=
  inferInstanceAs (Decidable (∀ c ∈ w.calls, c.outcome.isSome = true))

theorem phase_of_outcome {o : EnsureOutcome} (h : c.outcome = some o) :
    c.phase = .done o ∨ c.phase = .forwarded o := by
  unfold Call.outcome at h
  split at h
  · cases h
    exact .inl ‹_›
  · cases h
    exact .inr ‹_›
  · cases h

theorem Move.outcome_kept {o : EnsureOutcome} (hm : Move api w i c a w')
    (hc : w.calls[i]? = some c) (ho : c.outcome = some o) :
    ∃ d, w'.calls[i]? = some d ∧ d.outcome = some o := by
  cases hm with
  | forward hp _ _ =>
    refine ⟨_, Pool.getElem?_set_self hc, ?_⟩
    rw [← ho, Call.outcome, Call.outcome, hp]
  | unknown hp _ | found hp _ | acquire hp _ | resident hp _ | absent hp _ | refuse hp _
  | passed hp _ | unsent hp _ | sent hp _ | loaded hp _ | failed hp _ | announce hp | finish hp =>
    rw [Call.outcome, hp] at ho
    cases ho

theorem announced_of_outcome {o : EnsureOutcome} (h : c.outcome = some o) :
    c.announced = c.outcome.bind EnsureOutcome.loadedModel := by
  rw [h, Call.announced]
  rcases phase_of_outcome h with hp | hp <;> rw [hp] <;> rfl

theorem critical_of_outcome {o : EnsureOutcome} (h : c.outcome = some o) :
    c.critical = false := by
  rcases phase_of_outcome h with hp | hp <;> rw [Call.critical, hp] <;> rfl

theorem LockInv.free (h : LockInv w) (hd : w.AllDone) : w.lock = none := by
  cases hl : w.lock with
  | none => rfl
  | some i =>
    obtain ⟨c, hc, hcrit⟩ := h.held i hl
    obtain ⟨o, ho⟩ := Option.isSome_iff_exists.mp (hd c (List.mem_of_getElem? hc))
    rw [critical_of_outcome ho] at hcrit
    cases hcrit

/-- One event for each success, in order, and one for each `Loaded` outcome. -/
theorem EventInv.complete (h : EventInv w) (hd : w.AllDone) : w.events = w.successes ∧
    w.events.Perm (w.calls.filterMap fun c => c.outcome.bind EnsureOutcome.loadedModel) := by
  constructor
  · rw [h.inOrder, World.holder, h.lock.free hd, Option.bind_none, Option.bind_none,
      Option.toList_none, List.append_nil]
  · have hsame : ∀ c ∈ w.calls, c.announced = c.outcome.bind EnsureOutcome.loadedModel := by
      intro c hc
      obtain ⟨o, ho⟩ := Option.isSome_iff_exists.mp (hd c hc)
      exact announced_of_outcome ho
    rw [← List.filterMap_congr hsame]
    exact h.each

/-! ## Each call is an `ensure` -/

/-- The request got past the oracle with the estimate `v`. -/
def Passed (api : Api) (req : EnsureRequest) (v : F64) : Prop :=
  ∃ prof models t said, api.profile req.profile = some prof ∧
    req.profile ∉ routerLoaded models ∧
    oracleGate .none req.force (oracle api.reserves t prof) = .ok (v, said)

/-- What a call has met so far; at the end it has returned what `ensure` returns. -/
def Call.Follows (api : Api) (c : Call) : Prop :=
  match c.phase with
  | .called => True
  | .waiting prof | .locked prof => api.profile c.req.profile = some prof
  | .probed prof => api.profile c.req.profile = some prof ∧
      ∃ models, c.req.profile ∉ routerLoaded models
  | .admitted v => Passed api c.req v
  | .warming v | .warmed v _ | .announced v _ => Passed api c.req v ∧
      ∃ r, warmRequest api c.req.profile = some r
  | .done o | .forwarded o => ∃ env, (ensure api env .none c.req).1 = o

/-- Nothing answers. -/
def EnsureEnv.silent : EnsureEnv where
  models := none
  telemetry := ⟨none, none, none⟩
  warm := .error []
  loadMs := 0

theorem ensure_passed {v : F64} {req : EnsureRequest} (h : Passed api req v) (reply : WarmReply)
    (loadMs : Nat) : ∃ env prof, env.warm = reply ∧ env.loadMs = loadMs ∧
      (ensure api env .none req).1 = (load api env .none req.profile prof v).1 := by
  obtain ⟨prof, models, t, said, hprof, hm, ha⟩ := h
  refine ⟨⟨models, t, reply, loadMs⟩, prof, rfl, rfl, ?_⟩
  rw [ensure_known req hprof, ensureLocked_admitted req hm ha]

theorem Follows.move (h : c.Follows api) (hm : Move api w i c a w') :
    ∃ d, w'.calls = w.calls.set i d ∧ d.req = c.req ∧ d.Follows api := by
  unfold Call.Follows at h
  cases hm with
  | unknown hp hn =>
    refine ⟨_, rfl, rfl, .silent, ?_⟩
    rw [ensure_unknown c.req hn]
  | found hp hprof => exact ⟨_, rfl, rfl, hprof⟩
  | acquire hp _ =>
    rw [hp] at h
    exact ⟨_, rfl, rfl, h⟩
  | @resident prof reply hp hr =>
    rw [hp] at h
    refine ⟨_, rfl, rfl, { EnsureEnv.silent with models := reply }, ?_⟩
    rw [ensure_known c.req h, ensureLocked_resident c.req hr]
  | absent hp hr =>
    rw [hp] at h
    exact ⟨_, rfl, rfl, h, _, hr⟩
  | @refuse prof t info hp ha =>
    rw [hp] at h
    obtain ⟨hprof, models, hr⟩ := h
    refine ⟨_, rfl, rfl, { EnsureEnv.silent with models := models, telemetry := t }, ?_⟩
    rw [ensure_known c.req hprof, ensureLocked_refused c.req hr ha]
  | passed hp ha =>
    rw [hp] at h
    obtain ⟨hprof, models, hr⟩ := h
    exact ⟨_, rfl, rfl, _, models, _, _, hprof, hr, ha⟩
  | unsent hp hw =>
    rw [hp] at h
    obtain ⟨env, prof, -, -, he⟩ := ensure_passed h (.ok ⟨200, []⟩) 0
    refine ⟨_, rfl, rfl, env, ?_⟩
    rw [he, load, warmLoad, hw]
  | sent hp hw =>
    rw [hp] at h
    exact ⟨_, rfl, rfl, h, _, hw⟩
  | loaded hp _ =>
    rw [hp] at h
    exact ⟨_, rfl, rfl, h⟩
  | @failed v reply loadMs after e hp hr =>
    rw [hp] at h
    obtain ⟨hpass, r, hw⟩ := h
    obtain ⟨env, prof, hreply, -, he⟩ := ensure_passed hpass reply loadMs
    refine ⟨_, rfl, rfl, env, ?_⟩
    rw [he, load, warmLoad, hw, hreply, hr]
  | announce hp =>
    rw [hp] at h
    exact ⟨_, rfl, rfl, h⟩
  | @finish v loadMs hp =>
    rw [hp] at h
    obtain ⟨hpass, r, hw⟩ := h
    obtain ⟨env, prof, hreply, hms, he⟩ := ensure_passed hpass (.ok ⟨200, []⟩) loadMs
    refine ⟨_, rfl, rfl, env, ?_⟩
    rw [he, load_warmed ⟨hw, by rw [hreply]; rfl⟩, hms]
  | forward hp _ _ =>
    rw [hp] at h
    exact ⟨_, rfl, rfl, h⟩

/-- However the calls are interleaved, each returns what `ensure` returns for what it met. -/
theorem outcome_ensure {as : List Label} {resident : Option Str} {o : EnsureOutcome}
    (hr : Machine.run (step api) (World.init resident) as = some w) (hc : c ∈ w.calls)
    (ho : c.outcome = some o) : ∃ env, (ensure api env .none c.req).1 = o := by
  have hall : ∀ c ∈ w.calls, c.Follows api := by
    refine Machine.run_inv (P := fun w => ∀ c ∈ w.calls, c.Follows api) ?_ hr (by simp [World.init])
    intro u l v hu hs
    rcases step_cases hs with ⟨req, chat, -, rfl⟩ | ⟨i, a, d, -, hd, hm⟩
    · exact Pool.forall_concat hu trivial
    · obtain ⟨e, he, -, hfol⟩ := Follows.move (hu d (List.mem_of_getElem? hd)) hm
      rw [he]
      exact Pool.forall_set hu hfol
  have hfol : c.Follows api := hall c hc
  unfold Call.Follows at hfol
  rcases phase_of_outcome ho with hp | hp
  · rwa [hp] at hfol
  · rwa [hp] at hfol

end Saltnitor.ControlApi
