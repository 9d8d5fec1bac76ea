import Saltnitor.Process.Interleave
import Saltnitor.Process.Name

/-!
# The wait for the exit

`terminate_guarded` from its check to its result, among births, exits and changes of the process
table: the steps of `Interleave` up to the signal, then polls of `/proc` until the identity is not
the row's or the clock is past the deadline. The polls compare the whole identity, so a process
that changes its uid while it runs is reported as exited (`not_keeps_setuid`); `terminate_keeps`
says what holds while every poll is `Steady`.
-/

namespace Saltnitor.Process.Terminate

open Rust

/-! ## Stages -/

inductive Outcome where
  | exited
  | stillRunning
  deriving DecidableEq

/-- How far the call is; from the signal on with the process it went to. -/
inductive Stage where
  /-- `check` and `send`. -/
  | acting (p : Phase)
  /-- The error of `check` is returned. -/
  | refused (e : ProcessError)
  /-- The error of `send` is returned. -/
  | unsent (e : ProcessError)
  | reading (v : Task) (deadline : Nat)
  | statRead (v : Task) (deadline startTimeTicks : Nat)
  /-- The identity is the row's. -/
  | matched (v : Task) (deadline : Nat)
  | sleeping (v : Task) (deadline : Nat)
  | done (v : Task) (o : Outcome)

structure World where
  kernel : Kernel
  stage : Stage
  /-- The signals handed to the kernel so far. -/
  sent : List Signal

/-- What a poll meets: a file that can be read or not, and the name its task has at that moment. -/
structure Sight where
  readable : Bool
  name : List UInt8

/-- `read_to_string` of a file of `/proc`. -/
def Sight.text (i : Sight) (file : Task → List UInt8 → List UInt8) (u : Option Task) : Option Str :=
  if i.readable then (u.map fun u => file u i.name).bind fromUtf8 else none

inductive Label where
  | kernel (e : Kernel.Event)
  /-- A step of `check` or `send`. -/
  | act (a : Process.Label)
  /-- The clock is read for the deadline. -/
  | start (now : Nat)
  | readStat (i : Sight)
  | readStatus (i : Sight)
  | clock (now : Nat)
  | sleep

def Label.isKernel : Label → Bool
  | .kernel _ => true
  | _ => false

def Label.isRead : Label → Bool
  | .readStat _ | .readStatus _ => true
  | _ => false

/-- What can lie between the two reads of a poll and its look at the clock. -/
def Label.inPoll : Label → Bool
  | .kernel _ | .readStatus _ => true
  | _ => false

/-! ## Steps -/

/-- Where a step of `check` or `send` leads. -/
def returned (p : Phase) : Phase → Stage
  | .failed e =>
    match p with
    | .checked _ _ => .unsent e
    | _ => .refused e
  | q => .acting q

section Steps

variable (op : Operator) (info : ProcessInfo) (t : Target) (grace : Nat)

def next (k : Kernel) : Stage → Label → Option Stage
  | .acting p, .act a => (Process.next op .terminate info k p a).map (returned p)
  | .acting (.delivered _ _ v), .start now => some (.reading v (now + grace))
  | .reading v deadline, .readStat i =>
    match (i.text Task.statBytes (k.find t.pid)).bind parseStat with
    | none => some (.done v .exited)
    | some startTimeTicks => some (.statRead v deadline startTimeTicks)
  | .statRead v deadline startTimeTicks, .readStatus i =>
    if (((i.text Task.statusBytes (k.find t.pid)).bind parseUid).map fun uid =>
        { startTimeTicks, uid }) = some t.identity then
      some (.matched v deadline)
    else some (.done v .exited)
  | .matched v deadline, .clock now =>
    some (if deadline ≤ now then .done v .stillRunning else .sleeping v deadline)
  | .sleeping v deadline, .sleep => some (.reading v deadline)
  | _, _ => none

/-- The system calls of a step. -/
def signals : Stage → Label → List Signal
  | .acting (.checked t _), .act (.send _) => (sendVia t).toList.map fun _ => Action.terminate.signal
  | _, _ => []

def step (w : World) : Label → Option World
  | .kernel e => (w.kernel.step e).map fun kernel => { w with kernel }
  | l => (next op info t grace w.kernel w.stage l).map fun stage =>
    { w with stage, sent := w.sent ++ signals w.stage l }

/-- `terminate_guarded` is called. -/
def begin (k : Kernel) (g : Guard) : World := { kernel := k, stage := .acting (.guarded t g), sent := [] }

end Steps

/-- What one step of the call can do. -/
inductive Move (op : Operator) (info : ProcessInfo) (t : Target) (grace : Nat) (k : Kernel) :
    Stage → Label → Stage → Prop
  | act {p q : Phase} {a : Process.Label} (h : Process.next op .terminate info k p a = some q) :
      Move op info t grace k (.acting p) (.act a) (returned p q)
  | start {g : Guard} {route : Route} {v : Task} (now : Nat) :
      Move op info t grace k (.acting (.delivered g route v)) (.start now) (.reading v (now + grace))
  | noStat {v : Task} {d : Nat} {i : Sight}
      (h : (i.text Task.statBytes (k.find t.pid)).bind parseStat = none) :
      Move op info t grace k (.reading v d) (.readStat i) (.done v .exited)
  | stat {v : Task} {d start : Nat} {i : Sight}
      (h : (i.text Task.statBytes (k.find t.pid)).bind parseStat = some start) :
      Move op info t grace k (.reading v d) (.readStat i) (.statRead v d start)
  | differs {v : Task} {d start : Nat} {i : Sight}
      (h : (((i.text Task.statusBytes (k.find t.pid)).bind parseUid).map fun uid =>
        { startTimeTicks := start, uid }) ≠ some t.identity) :
      Move op info t grace k (.statRead v d start) (.readStatus i) (.done v .exited)
  | matched {v : Task} {d start : Nat} {i : Sight}
      (h : (((i.text Task.statusBytes (k.find t.pid)).bind parseUid).map fun uid =>
        { startTimeTicks := start, uid }) = some t.identity) :
      Move op info t grace k (.statRead v d start) (.readStatus i) (.matched v d)
  | late {v : Task} {d now : Nat} (h : d ≤ now) :
      Move op info t grace k (.matched v d) (.clock now) (.done v .stillRunning)
  | early {v : Task} {d now : Nat} (h : now < d) :
      Move op info t grace k (.matched v d) (.clock now) (.sleeping v d)
  | sleep {v : Task} {d : Nat} : Move op info t grace k (.sleeping v d) .sleep (.reading v d)

variable {op : Operator} {info : ProcessInfo} {t : Target} {grace : Nat} {k k' k₀ : Kernel}
  {g : Guard} {w w' : World} {as : List Label} {l : Label} {v : Task} {d : Nat}

theorem move_of_next {x y : Stage} (h : next op info t grace k x l = some y) :
    Move op info t grace k x l y := by
  unfold next at h
  split at h
  · obtain ⟨q, hq, rfl⟩ := Option.map_eq_some_iff.mp h
    exact .act hq
  · cases h
    exact .start _
  · split at h
    · rename_i hs
      cases h
      exact .noStat hs
    · rename_i hs
      cases h
      exact .stat hs
  · split at h
    · rename_i hs
      cases h
      exact .matched hs
    · rename_i hs
      cases h
      exact .differs hs
  · cases h
    split
    · exact .late ‹_›
    · exact .early (Nat.lt_of_not_le ‹_›)
  · cases h
    exact .sleep
  · cases h

theorem step_cases (h : step op info t grace w l = some w') :
    (∃ e k', l = .kernel e ∧ w.kernel.step e = some k' ∧ w' = { w with kernel := k' }) ∨
    (∃ stage, Move op info t grace w.kernel w.stage l stage ∧
      w' = { w with stage, sent := w.sent ++ signals w.stage l }) := by
  cases l with
  | kernel e =>
    obtain ⟨k', hk, rfl⟩ := Option.map_eq_some_iff.mp h
    exact .inl ⟨e, k', rfl, hk, rfl⟩
  | _ =>
    obtain ⟨stage, hs, rfl⟩ := Option.map_eq_some_iff.mp h
    exact .inr ⟨stage, move_of_next hs, rfl⟩

/-! ## What the polls read -/

/-- The file of a task can be read, and is text. -/
def Sight.Legible (i : Sight) : Prop := i.readable = true ∧ ∃ s, i.name = bytes s

theorem stat_of_legible {i : Sight} (h : i.Legible) (u : Task) :
    (i.text Task.statBytes (some u)).bind parseStat =
      if u.isZombie then none else some u.startTimeTicks := by
  obtain ⟨hr, s, hs⟩ := h
  rw [Sight.text, if_pos hr, Option.map_some, Option.bind_some, hs, Task.statBytes_text,
    fromUtf8_bytes, Option.bind_some]
  exact (u.named s).parseStat_statText

theorem status_of_legible {i : Sight} (h : i.Legible) (u : Task) :
    (i.text Task.statusBytes (some u)).bind parseUid = some u.uid := by
  obtain ⟨hr, s, hs⟩ := h
  rw [Sight.text, if_pos hr, Option.map_some, Option.bind_some, hs, Task.statusBytes_text,
    fromUtf8_bytes, Option.bind_some]
  exact (u.named s).parseUid_statusText

/-- A start time that was read is the one of a task that is no zombie. -/
theorem exists_of_stat {i : Sight} {u? : Option Task} {start : Nat}
    (h : (i.text Task.statBytes u?).bind parseStat = some start) :
    ∃ u, u? = some u ∧ ¬ u.isZombie ∧ u.startTimeTicks = start := by
  obtain ⟨text, ht, -⟩ := Option.bind_eq_some_iff.mp h
  unfold Sight.text at ht
  split at ht
  case isFalse => cases ht
  case isTrue hr =>
    cases u? with
    | none => cases ht
    | some u =>
      have hname : ∃ s, i.name = bytes s := fromUtf8_between.mp ⟨text, ht⟩
      rw [stat_of_legible ⟨hr, hname⟩ u] at h
      split at h
      · cases h
      · rename_i hz
        exact ⟨u, rfl, hz, Option.some.inj h⟩

/-! ## The process the signal went to -/

/-- The process is in the table and runs: it has neither gone, nor is it a zombie. -/
def Running (k : Kernel) (id : Nat) : Prop := ∃ u ∈ k.tasks, u.id = id ∧ ¬ u.isZombie

/-- `v` was born as the process the target describes. -/
structure IsTarget (t : Target) (k : Kernel) (v : Task) : Prop where
  born : v.birth ∈ k.born
  pid : v.pid = t.pid
  start : v.startTimeTicks = t.identity.startTimeTicks

theorem IsTarget.event {e : Kernel.Event} (h : IsTarget t k v) (he : k.step e = some k') :
    IsTarget t k' v :=
  ⟨Kernel.born_subset_of_step he h.born, h.pid, h.start⟩

theorem IsTarget.find (h : IsTarget t k v) {u : Task} (hu : u ∈ k.tasks) (hid : u.id = v.id) :
    k.find t.pid = some u ∧ u.startTimeTicks = t.identity.startTimeTicks := by
  have hb : u.birth = v.birth := Kernel.birth_eq_of_id (k.recorded u hu) h.born hid
  have hpid : u.pid = t.pid := (congrArg Birth.pid hb).trans h.pid
  exact ⟨Kernel.find_eq_some.mpr ⟨hu, hpid⟩, (congrArg Birth.startTimeTicks hb).trans h.start⟩

theorem IsTarget.running (h : IsTarget t k v) {u : Task} (hu : k.find t.pid = some u)
    (hz : ¬ u.isZombie) (hs : u.startTimeTicks = t.identity.startTimeTicks) : Running k v.id := by
  obtain ⟨hmem, hpid⟩ := Kernel.find_eq_some.mp hu
  have hb : u.birth = v.birth := Kernel.birth_eq_of_start (k.recorded u hmem) h.born
    (hpid.trans h.pid.symm) (hs.trans h.start.symm)
  exact ⟨u, hmem, congrArg Birth.id hb, hz⟩

/-! ## What a run has seen -/

section History

variable (op : Operator) (info : ProcessInfo) (t : Target) (grace : Nat) (k₀ : Kernel) (g : Guard)

/-- The signal of the run went to `v`. -/
def Signalled (as : List Label) (v : Task) : Prop :=
  ∃ as₁ permits as₂ u route, as = as₁ ++ .act (.send permits) :: as₂ ∧
    Machine.run (step op info t grace) (begin t k₀ g) as₁ = some u ∧
    sendVia t = some route ∧ u.kernel.deliver permits route = .ok v

/-- A poll read a file when `v` ran no more. -/
def SeenGone (as : List Label) (v : Task) : Prop :=
  ∃ as₁ l as₂ u, as = as₁ ++ l :: as₂ ∧
    Machine.run (step op info t grace) (begin t k₀ g) as₁ = some u ∧
    l.isRead = true ∧ ¬ Running u.kernel v.id

/-- The poll that is going on began when `v` was running, if `P`. -/
def Polls (P : Prop) (as : List Label) (v : Task) (d : Nat) : Prop :=
  ∃ as₁ i mid u, as = as₁ ++ .readStat i :: mid ∧
    Machine.run (step op info t grace) (begin t k₀ g) as₁ = some u ∧ u.stage = .reading v d ∧
    (P → Running u.kernel v.id) ∧ ∀ l ∈ mid, l.inPoll = true

/-- The deadline is the grace after the clock was first read. -/
def Started (as : List Label) (d : Nat) : Prop := ∃ now, .start now ∈ as ∧ d = now + grace

/-- A poll found `v` running and then the clock at the deadline or past it. -/
def SeenLate (as : List Label) (v : Task) : Prop :=
  ∃ as₁ now as₂ d, as = as₁ ++ .clock now :: as₂ ∧ Started grace as₁ d ∧ d ≤ now ∧
    Polls op info t grace k₀ g True as₁ v d

end History

/-- One step where the wait tells a process that runs from one that does not: the signal goes to the
process the target describes, the files of that process can be read and are text, and its uid is
the row's. -/
def Steady (t : Target) (w : World) : Label → Prop
  | .act (.send permits) => ∀ route v, sendVia t = some route → w.kernel.deliver permits route = .ok v →
    v.pid = t.pid ∧ v.startTimeTicks = t.identity.startTimeTicks
  | .readStat i => ∀ v d, w.stage = .reading v d → Running w.kernel v.id → i.Legible
  | .readStatus i => ∀ v d start, w.stage = .statRead v d start →
    ∀ u ∈ w.kernel.tasks, u.id = v.id → ¬ u.isZombie → i.Legible ∧ u.uid = t.identity.uid
  | _ => True

/-- `check` and `send` are about the target. -/
def OfTarget (t : Target) : Phase → Prop
  | .guarded t' _ | .leaderRead t' _ | .statRead t' _ _ | .checked t' _ => t' = t
  | .delivered .. => True
  | _ => False

/-- What each stage knows. -/
def Inv (op : Operator) (info : ProcessInfo) (t : Target) (grace : Nat) (k₀ : Kernel) (g : Guard)
    (as : List Label) (w : World) : Prop :=
  match w.stage with
  | .acting (.delivered _ _ v) => Signalled op info t grace k₀ g as v ∧ IsTarget t w.kernel v
  | .acting p => OfTarget t p
  | .refused _ | .unsent _ => True
  | .reading v d | .sleeping v d =>
    Signalled op info t grace k₀ g as v ∧ IsTarget t w.kernel v ∧ Started grace as d
  | .statRead v d start =>
    Signalled op info t grace k₀ g as v ∧ IsTarget t w.kernel v ∧ Started grace as d ∧
      (w.kernel.Alive v.id → start = t.identity.startTimeTicks) ∧
      Polls op info t grace k₀ g (start = t.identity.startTimeTicks) as v d
  | .matched v d =>
    Signalled op info t grace k₀ g as v ∧ IsTarget t w.kernel v ∧ Started grace as d ∧
      Polls op info t grace k₀ g True as v d
  | .done v .exited => Signalled op info t grace k₀ g as v ∧ SeenGone op info t grace k₀ g as v
  | .done v .stillRunning => Signalled op info t grace k₀ g as v ∧ SeenLate op info t grace k₀ g as v

theorem Signalled.snoc (h : Signalled op info t grace k₀ g as v) (l : Label) :
    Signalled op info t grace k₀ g (as ++ [l]) v := by
  obtain ⟨as₁, permits, as₂, u, route, rfl, h⟩ := h
  exact ⟨as₁, permits, as₂ ++ [l], u, route, by simp, h⟩

theorem SeenGone.snoc (h : SeenGone op info t grace k₀ g as v) (l : Label) :
    SeenGone op info t grace k₀ g (as ++ [l]) v := by
  obtain ⟨as₁, l', as₂, u, rfl, h⟩ := h
  exact ⟨as₁, l', as₂ ++ [l], u, by simp, h⟩

theorem SeenLate.snoc (h : SeenLate op info t grace k₀ g as v) (l : Label) :
    SeenLate op info t grace k₀ g (as ++ [l]) v := by
  obtain ⟨as₁, now, as₂, d, rfl, h⟩ := h
  exact ⟨as₁, now, as₂ ++ [l], d, by simp, h⟩

theorem Started.snoc (h : Started grace as d) (l : Label) : Started grace (as ++ [l]) d := by
  obtain ⟨now, hmem, hd⟩ := h
  exact ⟨now, List.mem_append_left _ hmem, hd⟩

theorem Polls.snoc {P Q : Prop} (h : Polls op info t grace k₀ g P as v d) (hQ : Q → P)
    (hl : l.inPoll = true) : Polls op info t grace k₀ g Q (as ++ [l]) v d := by
  obtain ⟨as₁, i, mid, u, rfl, hr, hs, hP, hmid⟩ := h
  refine ⟨as₁, i, mid ++ [l], u, by simp, hr, hs, fun hq => hP (hQ hq), ?_⟩
  exact List.forall_mem_append.mpr ⟨hmid, List.forall_mem_singleton.mpr hl⟩

theorem Inv.event {e : Kernel.Event} (h : Inv op info t grace k₀ g as w)
    (he : w.kernel.step e = some k') :
    Inv op info t grace k₀ g (as ++ [.kernel e]) { w with kernel := k' } := by
  obtain ⟨k, stage, sent⟩ := w
  unfold Inv at h ⊢
  dsimp only at h he ⊢
  split at h
  · exact ⟨h.1.snoc _, h.2.event he⟩
  · exact h
  · trivial
  · trivial
  · exact ⟨h.1.snoc _, h.2.1.event he, h.2.2.snoc _⟩
  · exact ⟨h.1.snoc _, h.2.1.event he, h.2.2.snoc _⟩
  · obtain ⟨hs, ht, hd, hstart, hp⟩ := h
    exact ⟨hs.snoc _, ht.event he, hd.snoc _,
      fun ha => hstart (Kernel.alive_of_step he ht.born ha), hp.snoc id rfl⟩
  · obtain ⟨hs, ht, hd, hp⟩ := h
    exact ⟨hs.snoc _, ht.event he, hd.snoc _, hp.snoc id rfl⟩
  · exact ⟨h.1.snoc _, h.2.snoc _⟩
  · exact ⟨h.1.snoc _, h.2.snoc _⟩

/-! ## One step -/

/-- The steps of `check` stay with the target; the step of `send` signals it or fails. -/
theorem acts_on_target {p q : Phase} {a : Process.Label} (hp : OfTarget t p)
    (h : Process.next op .terminate info k p a = some q) :
    (∃ e, q = .failed e) ∨
    (∃ g permits route v, a = .send permits ∧ sendVia t = some route ∧
      k.deliver permits route = .ok v ∧ q = .delivered g route v) ∨
    (OfTarget t q ∧ ∀ g route v, q ≠ .delivered g route v) := by
  cases advance_of_next h with
  | select | noTree | tree | readDir | endScan | readPpid | endDir => cases hp
  | refused | noStat | differs | noRoute | unsent => exact .inl ⟨_, rfl⟩
  | leader | stat | status =>
    cases hp
    exact .inr (.inr ⟨rfl, fun _ _ _ h => by cases h⟩)
  | sent hroute hv =>
    cases hp
    exact .inr (.inl ⟨_, _, _, _, rfl, hroute, hv, rfl⟩)

theorem mem_of_deliver {permits : Task → Bool} {route : Route}
    (h : k.deliver permits route = .ok v) : v ∈ k.tasks := by
  have hholder := (Kernel.deliver_eq_ok.mp h).1
  cases route with
  | pidfd id => exact (Kernel.byId_eq_some.mp hholder).1
  | byPid pid => exact (Kernel.find_eq_some.mp hholder).1

theorem Inv.act {p q : Phase} {a : Process.Label} {sent sent' : List Signal}
    (h : Inv op info t grace k₀ g as ⟨k, .acting p, sent⟩)
    (hr : Machine.run (step op info t grace) (begin t k₀ g) as = some ⟨k, .acting p, sent⟩)
    (hc : Steady t ⟨k, .acting p, sent⟩ (.act a))
    (hn : Process.next op .terminate info k p a = some q) :
    Inv op info t grace k₀ g (as ++ [.act a]) ⟨k, returned p q, sent'⟩ := by
  have hp : OfTarget t p := by
    cases p with
    | delivered => trivial
    | _ => exact h
  rcases acts_on_target hp hn with ⟨e, rfl⟩ | ⟨g', permits, route, v, rfl, hroute, hv, rfl⟩ | ⟨hq, hne⟩
  · unfold returned
    dsimp only
    split <;> trivial
  · obtain ⟨hpid, hstart⟩ := hc route v hroute hv
    exact ⟨⟨as, permits, [], _, route, rfl, hr, hroute, hv⟩, k.recorded v (mem_of_deliver hv), hpid,
      hstart⟩
  · cases q with
    | delivered g' route v => exact absurd rfl (hne g' route v)
    | failed e => cases hq
    | _ => exact hq

theorem Inv.move {stage : Stage} {sent : List Signal} (h : Inv op info t grace k₀ g as w)
    (hr : Machine.run (step op info t grace) (begin t k₀ g) as = some w) (hc : Steady t w l)
    (hm : Move op info t grace w.kernel w.stage l stage) :
    Inv op info t grace k₀ g (as ++ [l]) ⟨w.kernel, stage, sent⟩ := by
  obtain ⟨k, stage₀, sent₀⟩ := w
  dsimp only at hm ⊢
  cases hm with
  | act hn => exact Inv.act h hr hc hn
  | start now =>
    obtain ⟨hs, ht⟩ := h
    exact ⟨hs.snoc _, ht, now, List.mem_append_right _ (List.mem_singleton_self _), rfl⟩
  | @noStat v d i hnone =>
    obtain ⟨hs, ht, -⟩ := h
    refine ⟨hs.snoc _, as, _, [], _, rfl, hr, rfl, fun hrun => ?_⟩
    have hlegible := hc v d rfl hrun
    obtain ⟨u, hu, hid, hz⟩ := hrun
    rw [(ht.find hu hid).1, stat_of_legible hlegible u, if_neg hz] at hnone
    cases hnone
  | @stat v d start i hsome =>
    obtain ⟨hs, ht, hd⟩ := h
    obtain ⟨u, hfind, hz, hstart⟩ := exists_of_stat hsome
    refine ⟨hs.snoc _, ht, hd.snoc _, ?_, as, i, [], _, rfl, hr, rfl, ?_, List.forall_mem_nil _⟩
    · rintro ⟨u', hu', hid⟩
      obtain ⟨hfind', hstart'⟩ := ht.find hu' hid
      cases hfind.symm.trans hfind'
      exact hstart.symm.trans hstart'
    · exact fun he => ht.running hfind hz (hstart.trans he)
  | @differs v d start i hne =>
    obtain ⟨hs, ht, hd, hstart, -⟩ := h
    refine ⟨hs.snoc _, as, _, [], _, rfl, hr, rfl, ?_⟩
    rintro ⟨u, hu, hid, hz⟩
    obtain ⟨hlegible, huid⟩ := hc v d start rfl u hu hid hz
    rw [(ht.find hu hid).1, status_of_legible hlegible u, hstart ⟨u, hu, hid⟩, huid] at hne
    exact hne rfl
  | @matched v d start i he =>
    obtain ⟨hs, ht, hd, -, hp⟩ := h
    obtain ⟨uid, -, hid⟩ := Option.map_eq_some_iff.mp he
    have hstart : start = t.identity.startTimeTicks := congrArg Identity.startTimeTicks hid
    exact ⟨hs.snoc _, ht, hd.snoc _, hp.snoc (fun _ => hstart) rfl⟩
  | @late v d now hlate =>
    obtain ⟨hs, -, hd, hp⟩ := h
    exact ⟨hs.snoc _, as, now, [], d, rfl, hd, hlate, hp⟩
  | early =>
    obtain ⟨hs, ht, hd, -⟩ := h
    exact ⟨hs.snoc _, ht, hd.snoc _⟩
  | sleep =>
    obtain ⟨hs, ht, hd⟩ := h
    exact ⟨hs.snoc _, ht, hd.snoc _⟩

theorem inv_of_run (hr : Machine.run (step op info t grace) (begin t k₀ g) as = some w)
    (hc : Machine.Along (step op info t grace) (Steady t) (begin t k₀ g) as) :
    Inv op info t grace k₀ g as w := by
  have h0 : Inv op info t grace k₀ g [] (begin t k₀ g) := rfl
  refine Machine.run_history_along h0 ?_ hr hc
  intro as w l w' hr h hc hs
  rcases step_cases hs with ⟨e, k', rfl, hk, rfl⟩ | ⟨stage, hm, rfl⟩
  · exact h.event hk
  · exact h.move hr hc hm

/-! ## What is sent -/

/-- Nothing has been sent yet, or ever will be. -/
def Stage.early : Stage → Bool
  | .acting (.delivered ..) => false
  | .acting _ | .refused _ => true
  | _ => false

theorem length_signals (x : Stage) (l : Label) :
    (signals x l).length ≤ 1 ∧ ∀ s ∈ signals x l, s = .term := by
  unfold signals
  split
  · rename_i t _ _
    cases sendVia t with
    | none => simp
    | some route => simp [Action.signal]
  · simp

theorem Move.early_of {x y : Stage} (h : Move op info t grace k x l y) (hy : y.early = true) :
    x.early = true := by
  cases h with
  | @act p q a h =>
    cases p with
    | delivered g route v => cases h
    | _ => rfl
  | _ => cases hy

theorem Move.not_early {x y : Stage} (h : Move op info t grace k x l y) (hs : signals x l ≠ []) :
    x.early = true ∧ y.early = false := by
  unfold signals at hs
  split at hs
  · rename_i t' g' permits
    cases h with
    | act h =>
      refine ⟨rfl, ?_⟩
      cases advance_of_next h with
      | noRoute | unsent | sent => rfl
  · exact absurd rfl hs

theorem sent_of_run (hr : Machine.run (step op info t grace) (begin t k₀ g) as = some w) :
    (w.stage.early = true → w.sent = []) ∧ w.sent.length ≤ 1 ∧ ∀ s ∈ w.sent, s = .term := by
  refine Machine.run_inv (P := fun w : World => (w.stage.early = true → w.sent = []) ∧
    w.sent.length ≤ 1 ∧ ∀ s ∈ w.sent, s = .term) ?_ hr ⟨fun _ => rfl, by simp [begin]⟩
  intro w l w' h hs
  rcases step_cases hs with ⟨e, k', rfl, hk, rfl⟩ | ⟨stage, hm, rfl⟩
  · exact h
  · by_cases hempty : signals w.stage l = []
    · simp only [hempty, List.append_nil]
      exact ⟨fun he => h.1 (hm.early_of he), h.2⟩
    · obtain ⟨hearly, hlate⟩ := hm.not_early hempty
      simp only [h.1 hearly, List.nil_append]
      exact ⟨fun he => (by rw [hlate] at he; cases he), length_signals ..⟩

/-! ## The end of the loop -/

/-- Steps of the call up to the next look at the clock and past it. -/
def Stage.rank : Stage → Nat
  | .matched _ _ => 1
  | .statRead _ _ _ => 2
  | .reading _ _ => 3
  | .sleeping _ _ => 4
  | _ => 0

/-- In the loop with this deadline, or out of it with a result. -/
def InLoop (v : Task) (d : Nat) (x : Stage) : Prop :=
  x = .reading v d ∨ (∃ start, x = .statRead v d start) ∨ x = .matched v d ∨ x = .sleeping v d ∨
    ∃ o, x = .done v o

theorem Move.inLoop {x y : Stage} (h : Move op info t grace k x l y) (hx : InLoop v d x) :
    InLoop v d y := by
  rcases hx with rfl | ⟨start, rfl⟩ | rfl | rfl | ⟨o, rfl⟩
  · cases h with
    | noStat => exact .inr (.inr (.inr (.inr ⟨_, rfl⟩)))
    | stat => exact .inr (.inl ⟨_, rfl⟩)
  · cases h with
    | differs => exact .inr (.inr (.inr (.inr ⟨_, rfl⟩)))
    | matched => exact .inr (.inr (.inl rfl))
  · cases h with
    | late => exact .inr (.inr (.inr (.inr ⟨_, rfl⟩)))
    | early => exact .inr (.inr (.inr (.inl rfl)))
  · cases h with
    | sleep => exact .inl rfl
  · cases h

theorem Move.isKernel {x y : Stage} (h : Move op info t grace k x l y) : l.isKernel = false := by
  cases h <;> rfl

/-- With the clock at the deadline every step of the loop brings its end nearer. -/
theorem Move.rank_lt {x y : Stage} (h : Move op info t grace k x l y) (hx : InLoop v d x)
    (hclock : ∀ now, l = .clock now → d ≤ now) : y.rank < x.rank := by
  rcases hx with rfl | ⟨start, rfl⟩ | rfl | rfl | ⟨o, rfl⟩
  · cases h <;> simp [Stage.rank]
  · cases h <;> simp [Stage.rank]
  · cases h with
    | late => exact Nat.one_pos
    | early hlt => exact absurd (hclock _ rfl) (Nat.not_le_of_lt hlt)
  · cases h
    simp [Stage.rank]
  · cases h

/-- A clock that passes every time, read by a loop that gets its turns, ends the loop. -/
theorem loop_ends {st : ℕ → World} {ls : ℕ → Label} {time : ℕ → ℕ}
    (hf : Machine.Follows (step op info t grace) st ls) (h0 : (st 0).stage = .reading v d)
    (hclock : ∀ n now, ls n = .clock now → now = time n) (hadvances : ∀ b, ∃ m, ∀ n ≥ m, b ≤ time n)
    (hturns : ∀ n, (∀ o, (st n).stage ≠ .done v o) → ∃ i ≥ n, (ls i).isKernel = false) :
    ∃ n o, (st n).stage = .done v o := by
  have hloop : ∀ n, InLoop v d (st n).stage := by
    refine hf.inv (P := fun w => InLoop v d w.stage) ?_ (.inl h0)
    intro w l w' hw hs
    rcases step_cases hs with ⟨e, k', rfl, hk, rfl⟩ | ⟨stage, hm, rfl⟩
    · exact hw
    · exact hm.inLoop hw
  obtain ⟨m, hm⟩ := hadvances d
  have hown : ∀ n ≥ m, ¬ (∃ o, (st n).stage = .done v o) → (ls n).isKernel = false →
      (st (n + 1)).stage.rank < (st n).stage.rank := by
    intro n hn _ hown
    rcases step_cases (hf n) with ⟨e, k', hl, -, -⟩ | ⟨stage, hmove, he⟩
    · rw [hl] at hown
      cases hown
    · rw [he]
      exact hmove.rank_lt (hloop n) fun now hl => hclock n now hl ▸ hm n hn
  have hother : ∀ n ≥ m, ¬ (ls n).isKernel = false →
      (st (n + 1)).stage.rank ≤ (st n).stage.rank := by
    intro n _ hown
    rcases step_cases (hf n) with ⟨e, k', -, -, he⟩ | ⟨stage, hmove, -⟩
    · rw [he]
    · exact absurd hmove.isKernel hown
  obtain ⟨n, -, o, ho⟩ := Machine.eventually_of_rank (fun w : World => ∃ o, w.stage = .done v o)
    (fun l : Label => l.isKernel = false) (fun w => w.stage.rank) hown hother
    fun n _ hgoal => hturns n fun o ho => hgoal ⟨o, ho⟩
  exact ⟨n, o, ho⟩

/-! ## The steps of `Interleave` -/

theorem run_acting (t : Target) (grace : Nat) (sent : List Signal) {as : List Process.Label}
    {p : Phase} {g' : Guard} {route : Route} (hown : ∀ a ∈ as, a.isKernel = false)
    (hr : Machine.run (Process.step op .terminate info) ⟨k, p⟩ as = some ⟨k, .delivered g' route v⟩) :
    ∃ sent', Machine.run (step op info t grace) ⟨k, .acting p, sent⟩ (as.map .act) =
      some ⟨k, .acting (.delivered g' route v), sent'⟩ := by
  induction as generalizing p sent with
  | nil =>
    cases hr
    exact ⟨sent, rfl⟩
  | cons a as ih =>
    obtain ⟨ha, hown⟩ := List.forall_mem_cons.mp hown
    obtain ⟨x, hx, hr⟩ := Machine.run_cons_eq_some.mp hr
    have hnext : ∃ q, Process.next op .terminate info k p a = some q ∧ x = ⟨k, q⟩ := by
      cases a with
      | kernel e => cases ha
      | _ =>
        obtain ⟨q, hq, rfl⟩ := Option.map_eq_some_iff.mp hx
        exact ⟨q, hq, rfl⟩
    obtain ⟨q, hq, rfl⟩ := hnext
    have hreturned : returned p q = .acting q := by
      cases q with
      | failed e =>
        cases as with
        | nil => cases hr
        | cons b as =>
          obtain ⟨y, hy, -⟩ := Machine.run_cons_eq_some.mp hr
          cases b with
          | kernel e => cases (List.forall_mem_cons.mp hown).1
          | _ => cases hy
      | _ => rfl
    obtain ⟨sent', hrun⟩ := ih (sent ++ signals (.acting p) (.act a)) hown hr
    refine ⟨sent', ?_⟩
    rw [List.map_cons, Machine.run_cons]
    have hstep : step op info t grace ⟨k, .acting p, sent⟩ (.act a) =
        some ⟨k, .acting q, sent ++ signals (.acting p) (.act a)⟩ := by
      simp only [step, next, hq, Option.map_some, hreturned]
    rw [hstep]
    exact hrun

/-- A run that has not signalled is a run of `Interleave`, about the target. -/
theorem acting_of_run {p : Phase}
    (hr : Machine.run (step op info t grace) (begin t k₀ g) as = some w) (hp : w.stage = .acting p) :
    OfTarget t p ∧ ∃ cs, Machine.run (Process.step op .terminate info) ⟨k₀, .guarded t g⟩ cs =
      some ⟨w.kernel, p⟩ := by
  refine Machine.run_history (P := fun _ w => ∀ p, w.stage = .acting p → OfTarget t p ∧
    ∃ cs, Machine.run (Process.step op .terminate info) ⟨k₀, .guarded t g⟩ cs = some ⟨w.kernel, p⟩)
    ?_ ?_ hr p hp
  · rintro p ⟨⟩
    exact ⟨rfl, [], rfl⟩
  · intro as w l w' _ ih hs p hp
    rcases step_cases hs with ⟨e, k', rfl, he, rfl⟩ | ⟨stage, hm, rfl⟩
    · obtain ⟨ht, cs, hcs⟩ := ih p hp
      refine ⟨ht, cs ++ [.kernel e], Machine.run_append_eq_some.mpr ⟨_, hcs, ?_⟩⟩
      simp only [Machine.run_cons, Machine.run_nil, Process.step, he, Option.map_some, Option.bind_some]
    · dsimp only at hp
      subst hp
      generalize hx : w.stage = x at hm
      generalize hy : Stage.acting p = y at hm
      cases hm with
      | @act p₀ q a hq =>
        obtain ⟨ht, cs, hcs⟩ := ih p₀ hx
        have hqp : q = p := by
          cases q with
          | failed e =>
            unfold returned at hy
            dsimp only at hy
            split at hy <;> cases hy
          | _ => exact (Stage.acting.inj hy).symm
        subst hqp
        refine ⟨?_, cs ++ [a], Machine.run_append_eq_some.mpr ⟨_, hcs, ?_⟩⟩
        · rcases acts_on_target ht hq with ⟨e, rfl⟩ | ⟨_, _, _, _, _, _, _, rfl⟩ | ⟨hq, -⟩
          · unfold returned at hy
            dsimp only at hy
            split at hy <;> cases hy
          · trivial
          · exact hq
        · cases a with
          | kernel e => cases advance_of_next hq
          | _ =>
            simp only [Machine.run_cons, Machine.run_nil, Process.step, hq, Option.map_some,
              Option.bind_some]
      | _ => cases hy

/-- The pidfd of a selected row denotes the process the row describes when the signal goes out:
`Steady` asks nothing there of a target that has one. -/
theorem steady_send {k : Kernel} {bs : List Process.Label} {fd : Nat} {permits : Task → Bool}
    (hb : Machine.run (Process.step op .terminate info) ⟨k, .start⟩ bs = some ⟨k₀, .guarded t g⟩)
    (hfd : t.pidfd = some fd)
    (hr : Machine.run (step op info t grace) (begin t k₀ g) as = some w)
    (hs : step op info t grace w (.act (.send permits)) = some w') :
    Steady t w (.act (.send permits)) := by
  intro route v hroute hv
  have hrow : IsRow info t := (Process.inv_of_run hb).1
  have hpidfd : route = .pidfd fd := by
    rw [sendVia, hfd] at hroute
    exact (Option.some.inj hroute).symm
  subst hpidfd
  obtain ⟨stage, hnext, -⟩ := Option.map_eq_some_iff.mp hs
  generalize hx : w.stage = x at hnext
  cases move_of_next hnext with
  | @act p q a hq =>
    obtain ⟨ht, cs, hcs⟩ := acting_of_run hr hx
    obtain ⟨g', rfl⟩ : ∃ g', p = .checked t g' := by
      cases advance_of_next hq with
      | noRoute | unsent | sent =>
        cases ht
        exact ⟨_, rfl⟩
    have hsend : Machine.run (Process.step op .terminate info) ⟨k, .start⟩ (bs ++ (cs ++ [.send permits])) =
        some ⟨w.kernel, .delivered g' (.pidfd fd) v⟩ := by
      refine Machine.run_append_eq_some.mpr ⟨_, hb, Machine.run_append_eq_some.mpr ⟨_, hcs, ?_⟩⟩
      simp only [Machine.run_cons, Machine.run_nil, Process.step, Process.next, hroute, hv,
        Option.map_some, Option.bind_some]
    obtain ⟨-, -, -, -, hpid, -, hstart, -⟩ := Process.inv_of_run hsend fd rfl
    exact ⟨hpid.trans hrow.1.symm, hstart.trans (congrArg Identity.startTimeTicks hrow.2).symm⟩

/-- With no event in between, the two reads are the poll that `Kernel.reportsExited` describes. -/
theorem poll_quiet {comm : Nat → List UInt8} {i : Sight} {sent : List Signal}
    (hr : i.readable = true) (hname : ∀ u, k.find t.pid = some u → i.name = comm u.id) :
    ∃ ls, (∀ l ∈ ls, l.isRead = true) ∧
      Machine.run (step op info t grace) ⟨k, .reading v d, sent⟩ ls =
        some ⟨k, if k.reportsExited comm t = true then .done v .exited else .matched v d, sent⟩ := by
  have htext (file : Task → List UInt8 → List UInt8) : i.text file (k.find t.pid) =
      ((k.find t.pid).map fun u => file u (comm u.id)).bind fromUtf8 := by
    rw [Sight.text, if_pos hr]
    cases hf : k.find t.pid with
    | none => rfl
    | some u => rw [Option.map_some, Option.map_some, hname u hf]
  have hstat : i.text Task.statBytes (k.find t.pid) = (k.statBytes comm t.pid).bind fromUtf8 :=
    htext _
  have hstatus : i.text Task.statusBytes (k.find t.pid) = (k.statusBytes comm t.pid).bind fromUtf8 :=
    htext _
  have hpoll : k.identityNow comm t.pid =
      ((i.text Task.statBytes (k.find t.pid)).bind parseStat).bind fun startTimeTicks =>
        ((i.text Task.statusBytes (k.find t.pid)).bind parseUid).map fun uid =>
          { startTimeTicks, uid } := by
    rw [Kernel.identityNow, identityOf, identity_eq, hstat, hstatus]
  cases hs : (i.text Task.statBytes (k.find t.pid)).bind parseStat with
  | none =>
    rw [hs, Option.bind_none] at hpoll
    refine ⟨[.readStat i], by simp [Label.isRead], ?_⟩
    simp [Machine.run_cons, step, next, signals, hs, Kernel.reportsExited, hpoll]
  | some start =>
    rw [hs, Option.bind_some] at hpoll
    refine ⟨[.readStat i, .readStatus i], by simp [Label.isRead], ?_⟩
    simp only [Machine.run_cons, Machine.run_nil, step, next, signals, hs, Option.map_some,
      Option.bind_some, List.append_nil, Kernel.reportsExited, hpoll, decide_eq_true_eq]
    by_cases h : (((i.text Task.statusBytes (k.find t.pid)).bind parseUid).map fun uid =>
        (⟨start, uid⟩ : Identity)) = some t.identity
    · rw [if_pos h, if_neg (not_not.mpr h)]
      rfl
    · rw [if_neg h, if_pos h]
      rfl

/-! ## The whole call -/

/-- What is promised of `terminate_guarded` on a target, where every step is `C`. -/
structure Keeps (C : World → Label → Prop) (op : Operator) (info : ProcessInfo) (t : Target)
    (grace : Nat) (k₀ : Kernel) (g : Guard) : Prop where
  /-- One SIGTERM at most, and none when `check` returns an error. -/
  sent : ∀ as w, Machine.run (step op info t grace) (begin t k₀ g) as = some w →
    w.sent.length ≤ 1 ∧ (∀ s ∈ w.sent, s = .term) ∧ ∀ e, w.stage = .refused e → w.sent = []
  exited : ∀ as w v, Machine.run (step op info t grace) (begin t k₀ g) as = some w →
    Machine.Along (step op info t grace) C (begin t k₀ g) as → w.stage = .done v .exited →
    Signalled op info t grace k₀ g as v ∧ SeenGone op info t grace k₀ g as v
  stillRunning : ∀ as w v, Machine.run (step op info t grace) (begin t k₀ g) as = some w →
    Machine.Along (step op info t grace) C (begin t k₀ g) as → w.stage = .done v .stillRunning →
    Signalled op info t grace k₀ g as v ∧ SeenLate op info t grace k₀ g as v
  /-- From the first poll on, as long as the loop gets its turns. -/
  ends : ∀ (st : ℕ → World) (ls : ℕ → Label) (time : ℕ → ℕ) v d,
    Machine.Follows (step op info t grace) st ls →
    (st 0).stage = .reading v d → (∀ n now, ls n = .clock now → now = time n) →
    (∀ b, ∃ m, ∀ n ≥ m, b ≤ time n) →
    (∀ n, (∀ o, (st n).stage ≠ .done v o) → ∃ i ≥ n, (ls i).isKernel = false) →
    ∃ n o, (st n).stage = .done v o

/-- **The result is the truth about the process that was signalled** while every poll is `Steady`,
whatever else happens to the table. -/
theorem terminate_keeps (op : Operator) (info : ProcessInfo) (t : Target) (grace : Nat) (k₀ : Kernel)
    (g : Guard) : Keeps (Steady t) op info t grace k₀ g where
  sent as w hr := by
    obtain ⟨hearly, hone, hterm⟩ := sent_of_run hr
    exact ⟨hone, hterm, fun e he => hearly (by rw [he]; rfl)⟩
  exited as w v hr hc hd := by
    have h := inv_of_run hr hc
    unfold Inv at h
    rw [hd] at h
    exact h
  stillRunning as w v hr hc hd := by
    have h := inv_of_run hr hc
    unfold Inv at h
    rw [hd] at h
    exact h
  ends st ls time v d hf h0 hclock hadvances hturns := loop_ends hf h0 hclock hadvances hturns

/-! ## The router signalled -/

section Router

/-- The row of the router, selected while it runs. -/
def routerTarget : Target := Target.select (rowOf routerTask) (.ok 0)

def routerGuard : Guard := Guard.current routerOperator (runtimeTree routerTable.texts none)

theorem exists_delivered : ∃ as route sent, (∀ l ∈ as, ∃ a, l = .act a) ∧
    Machine.run (step routerOperator (rowOf routerTask) routerTarget 5000)
      (begin routerTarget routerTable routerGuard) as =
        some ⟨routerTable, .acting (.delivered routerGuard route routerTask), sent⟩ := by
  obtain ⟨p, ⟨as, hown, hr⟩, hp⟩ : ∃ p, Quiet routerOperator .terminate (rowOf routerTask) routerTable
      (.guarded routerTarget routerGuard) p ∧ Process.Outcome routerTarget routerGuard
        (runAction .terminate routerTable routerTable.texts (fun _ => true) routerOperator none
          routerTarget) p :=
    quiet_guarded (fun _ => true) _ _
  have hrouter : runAction .terminate routerTable routerTable.texts (fun _ => true) routerOperator none
      routerTarget = .ok routerTask := runAction_router _
  rw [hrouter] at hp
  obtain ⟨route, -, rfl⟩ := hp
  obtain ⟨sent, hrun⟩ := run_acting routerTarget 5000 [] hown hr
  refine ⟨as.map .act, route, sent, fun l hl => ?_, hrun⟩
  obtain ⟨a, -, rfl⟩ := List.mem_map.mp hl
  exact ⟨a, rfl⟩

theorem along_delivered {as : List Label} (h : ∀ l ∈ as, ∃ a, l = .act a) :
    Machine.Along (step routerOperator (rowOf routerTask) routerTarget 5000) (Steady routerTarget)
      (begin routerTarget routerTable routerGuard) as := by
  refine Machine.along_of_inv (P := fun w : World => w.kernel = routerTable)
    (C := fun _ l => ∃ a, l = .act a) ?_ ?_ (Machine.along_of_forall (fun l hl _ => h l hl) _) rfl
  · rintro w _ w' hw ⟨a, rfl⟩ hs
    rcases step_cases hs with ⟨e, k', hl, -, -⟩ | ⟨stage, -, rfl⟩
    · cases hl
    · exact hw
  · rintro w _ hw ⟨a, rfl⟩
    cases a with
    | send permits =>
      intro route v _ hv
      have hmem : v ∈ routerTable.tasks := hw ▸ mem_of_deliver hv
      cases List.mem_singleton.mp hmem
      exact ⟨rfl, rfl⟩
    | _ => trivial

/-- The router exits and is reaped, and the first poll says so. -/
theorem terminate_keeps_router : ∃ as w,
    Machine.run (step routerOperator (rowOf routerTask) routerTarget 5000)
      (begin routerTarget routerTable routerGuard) as = some w ∧
    w.stage = .done routerTask .exited ∧
    Signalled routerOperator (rowOf routerTask) routerTarget 5000 routerTable routerGuard as routerTask ∧
    SeenGone routerOperator (rowOf routerTask) routerTarget 5000 routerTable routerGuard as routerTask := by
  obtain ⟨as, route, sent, hacts, hrun⟩ := exists_delivered
  have hnone : ((⟨true, []⟩ : Sight).text Task.statBytes ((routerTable.reap 0).find 100)).bind parseStat =
      none := rfl
  have hrest : Machine.run (step routerOperator (rowOf routerTask) routerTarget 5000)
      ⟨routerTable, .acting (.delivered routerGuard route routerTask), sent⟩
      [.start 0, .kernel (.reap 0), .readStat ⟨true, []⟩] =
        some ⟨routerTable.reap 0, .done routerTask .exited, sent⟩ := by
    simp only [Machine.run_cons, Machine.run_nil, step, next, signals, Kernel.step, Option.map_some,
      Option.bind_some, List.append_nil]
    rw [show routerTarget.pid = 100 from rfl, hnone]
    rfl
  have hr := Machine.run_append_eq_some.mpr ⟨_, hrun, hrest⟩
  have hgone : ¬ Running (routerTable.reap 0) routerTask.id := by
    rintro ⟨u, hu, -⟩
    cases hu
  have hsteady : Machine.Along (step routerOperator (rowOf routerTask) routerTarget 5000)
      (Steady routerTarget) ⟨routerTable, .acting (.delivered routerGuard route routerTask), sent⟩
      [.start 0, .kernel (.reap 0), .readStat ⟨true, []⟩] := by
    refine ⟨trivial, fun w hw => ⟨trivial, fun w' hw' => ⟨?_, fun _ _ => trivial⟩⟩⟩
    cases hw
    cases hw'
    intro v d hv hrunning
    cases hv
    exact absurd hrunning hgone
  obtain ⟨hs, hseen⟩ := (terminate_keeps routerOperator (rowOf routerTask) routerTarget 5000 routerTable
    routerGuard).exited _ _ routerTask hr (Machine.along_append hrun (along_delivered hacts) hsteady) rfl
  exact ⟨_, _, hr, rfl, hs, hseen⟩

/-! ## A process that changes its uid -/

theorem running_of_run {u : Task} (hu : ¬ u.isZombie) (h0 : Running k₀ u.id)
    (hr : Machine.run (step op info t grace) (begin t k₀ g) as = some w)
    (hk : ∀ e, .kernel e ∈ as → e = .change u) : Running w.kernel u.id := by
  refine Machine.run_history (P := fun as w => (∀ e, .kernel e ∈ as → e = .change u) →
    Running w.kernel u.id) (fun _ => h0) ?_ hr hk
  intro as w l w' _ ih hs hk
  have hrun : Running w.kernel u.id := ih fun e he => hk e (List.mem_append_left _ he)
  rcases step_cases hs with ⟨e, k', rfl, he, rfl⟩ | ⟨stage, -, rfl⟩
  · cases hk e (List.mem_append_right _ (List.mem_singleton_self _))
    obtain ⟨x, hx, hid, -⟩ := hrun
    refine ⟨u, ?_, rfl, hu⟩
    rw [(Kernel.change_eq_some he).1]
    exact List.mem_map.mpr ⟨x, hx, if_pos hid⟩
  · exact hrun

/-- The router of `routerTask` under another uid. -/
def setuidTask : Task := { routerTask with uid := 1001, uid_lt := by decide }

def setuidTable : Kernel :=
  { routerTable with
    tasks := [setuidTask]
    pids_nodup := by decide
    recorded := by decide }

theorem change_setuid : routerTable.step (.change setuidTask) = some setuidTable := by
  rw [Kernel.step, Kernel.change, dif_pos (by decide)]
  rfl

def routerSight : Sight := { readable := true, name := bytes "llama-server" }

theorem legible_router : routerSight.Legible := ⟨rfl, _, rfl⟩

/-- The signal is sent, the process gives up its uid and runs on, and the next poll says it has
exited. -/
theorem exists_run_setuid : ∃ as w,
    Machine.run (step routerOperator (rowOf routerTask) routerTarget 5000)
      (begin routerTarget routerTable routerGuard) as = some w ∧
    w.stage = .done routerTask .exited ∧ ∀ e, .kernel e ∈ as → e = .change setuidTask := by
  obtain ⟨as, route, sent, hacts, hrun⟩ := exists_delivered
  have hfind : setuidTable.find routerTarget.pid = some setuidTask := rfl
  have hstat : (routerSight.text Task.statBytes (some setuidTask)).bind parseStat = some 7 := by
    rw [stat_of_legible legible_router]
    rfl
  have hstatus : (routerSight.text Task.statusBytes (some setuidTask)).bind parseUid = some 1001 := by
    rw [status_of_legible legible_router]
    rfl
  refine ⟨as ++ [.start 0, .kernel (.change setuidTask), .readStat routerSight,
    .readStatus routerSight], ⟨setuidTable, .done routerTask .exited, sent⟩, ?_, rfl, ?_⟩
  · refine Machine.run_append_eq_some.mpr ⟨_, hrun, ?_⟩
    simp only [Machine.run_cons, Machine.run_nil, step, next, signals, change_setuid, Option.map_some,
      Option.bind_some, List.append_nil, hfind, hstat, hstatus]
    rfl
  · intro e he
    rcases List.mem_append.mp he with he | he
    · obtain ⟨a, ha⟩ := hacts _ he
      cases ha
    · simpa using he

/-- The process that changed its uid runs at every poll of that run. -/
theorem not_keeps_setuid :
    ¬ Keeps (fun _ _ => True) routerOperator (rowOf routerTask) routerTarget 5000 routerTable routerGuard := by
  intro h
  obtain ⟨as, w, hr, hd, hk⟩ := exists_run_setuid
  obtain ⟨-, as₁, l, as₂, u, rfl, hr₁, -, hgone⟩ :=
    h.exited as w _ hr (Machine.along_of_forall (fun _ _ _ => trivial) _) hd
  have h0 : Running routerTable setuidTask.id := ⟨routerTask, List.mem_singleton_self _, rfl, by decide⟩
  exact hgone (running_of_run (u := setuidTask) (by decide) h0 hr₁
    fun e he => hk e (List.mem_append_left _ he))

end Router

end Saltnitor.Process.Terminate
