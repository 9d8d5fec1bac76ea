import Saltnitor.Lib.Machine
import Saltnitor.Process.RuntimeTree

/-!
# Signals among births and exits

`step` interleaves one `x` or `X`, from `Target.select` to `send`, with whatever
happens to the process table. Every read of `/proc` is a step of its own that
sees the table of its moment. `pidfd_delivery` is what the pidfd buys: the
process it denotes was there when it was opened and is there when the signal
comes, so it held the PID at every read in between, and what was read is its
own. With no event in between the steps do what `runAction` does
(`exists_quiet_run`).
-/

namespace Saltnitor.Process

open Rust

/-! ## Steps -/

/-- How far the action is, with what it has read. -/
inductive Phase where
  | start
  | selected (t : Target)
  /-- `runtime_tree` is about to list `/proc` for the parent at `i`. -/
  | scanning (t : Target) (tree : List Nat) (i : Nat)
  | inDir (t : Target) (tree : List Nat) (i parent : Nat) (entries : List Nat)
  | guarded (t : Target) (g : Guard)
  | leaderRead (t : Target) (g : Guard)
  | statRead (t : Target) (g : Guard) (startTimeTicks : Nat)
  | checked (t : Target) (g : Guard)
  | delivered (g : Guard) (route : Route) (v : Task)
  | failed (e : ProcessError)

structure World where
  kernel : Kernel
  phase : Phase

inductive Label where
  | kernel (e : Kernel.Event)
  | select (opened : Except Errno Nat)
  | query (out : Option QueryOutput)
  /-- The entries of `/proc`, each as it is when the directory stream comes to it. -/
  | readDir (entries : List Nat)
  | readPpid
  | endDir
  | endScan
  | readTgid
  | readStat
  | readStatus
  | send (permits : Task → Bool)

def Label.isKernel : Label → Bool
  | .kernel _ => true
  | _ => false

/-- A pidfd denotes the task that holds the PID when it is opened. -/
def opensHolder (k : Kernel) (pid : Nat) : Except Errno Nat → Bool
  | .ok fd => (k.find pid).map Task.id == some fd
  | .error _ => true

/-- One step of the action, in the table of its moment. -/
def next (op : Operator) (act : Action) (info : ProcessInfo) (k : Kernel) :
    Phase → Label → Option Phase
  | .start, .select opened =>
    if opensHolder k info.pid opened then some (.selected (Target.select info opened)) else none
  | .selected t, .query out =>
    match queryRoot out with
    | none => some (.guarded t (Guard.current op []))
    | some root => some (.scanning t [root] 0)
  | .scanning t tree i, .readDir entries => (tree[i]?).map fun p => .inDir t tree i p entries
  | .scanning t tree i, .endScan =>
    if tree[i]?.isNone then some (.guarded t (Guard.current op tree)) else none
  | .inDir t tree i parent (pid :: rest), .readPpid =>
    let tree' := if (k.status pid).bind parsePpid = some parent then Worklist.add tree pid else tree
    some (.inDir t tree' i parent rest)
  | .inDir t tree i _ [], .endDir => some (.scanning t tree (i + 1))
  | .guarded t g, .readTgid =>
    match checkLeader t g ((tgid (k.status t.pid)).getD t.pid) with
    | .error e => some (.failed e)
    | .ok () =>
      match checkOpened t with
      | .error e => some (.failed e)
      | .ok () => some (.leaderRead t g)
  | .leaderRead t g, .readStat =>
    match (k.stat t.pid).bind parseStat with
    | none => some (.failed (gone t))
    | some startTimeTicks => some (.statRead t g startTimeTicks)
  | .statRead t g startTimeTicks, .readStatus =>
    match checkIdentity t g
        (((k.status t.pid).bind parseUid).map fun uid => { startTimeTicks, uid }) with
    | .error e => some (.failed e)
    | .ok () => some (.checked t g)
  | .checked t g, .send permits =>
    match sendVia t with
    | none => some (.failed (sendFailed act.signal t "invalid pid"))
    | some route =>
      match k.deliver permits route with
      | .error e => some (.failed (sendFailed act.signal t e))
      | .ok v => some (.delivered g route v)
  | _, _ => none

def step (op : Operator) (act : Action) (info : ProcessInfo) (w : World) : Label → Option World
  | .kernel e => (w.kernel.step e).map fun kernel => { w with kernel }
  | a => (next op act info w.kernel w.phase a).map fun phase => { w with phase }

/-- What one step of the action can do, with the reason it had. -/
inductive Advance (op : Operator) (act : Action) (info : ProcessInfo) (k : Kernel) :
    Phase → Label → Phase → Prop
  | select {opened : Except Errno Nat} (h : opensHolder k info.pid opened = true) :
      Advance op act info k .start (.select opened) (.selected (Target.select info opened))
  | noTree {t : Target} {out : Option QueryOutput} (h : queryRoot out = none) :
      Advance op act info k (.selected t) (.query out) (.guarded t (Guard.current op []))
  | tree {t : Target} {out : Option QueryOutput} {root : Nat} (h : queryRoot out = some root) :
      Advance op act info k (.selected t) (.query out) (.scanning t [root] 0)
  | readDir {t : Target} {tree entries : List Nat} {i p : Nat} (h : tree[i]? = some p) :
      Advance op act info k (.scanning t tree i) (.readDir entries) (.inDir t tree i p entries)
  | endScan {t : Target} {tree : List Nat} {i : Nat} (h : tree[i]? = none) :
      Advance op act info k (.scanning t tree i) .endScan (.guarded t (Guard.current op tree))
  | readPpid {t : Target} {tree rest : List Nat} {i parent pid : Nat} :
      Advance op act info k (.inDir t tree i parent (pid :: rest)) .readPpid
        (.inDir t (if (k.status pid).bind parsePpid = some parent then Worklist.add tree pid else tree)
          i parent rest)
  | endDir {t : Target} {tree : List Nat} {i parent : Nat} :
      Advance op act info k (.inDir t tree i parent []) .endDir (.scanning t tree (i + 1))
  | refused {t : Target} {g : Guard} {e : ProcessError}
      (h : checkLeader t g ((tgid (k.status t.pid)).getD t.pid) = .error e ∨
        checkOpened t = .error e) :
      Advance op act info k (.guarded t g) .readTgid (.failed e)
  | leader {t : Target} {g : Guard}
      (h : checkLeader t g ((tgid (k.status t.pid)).getD t.pid) = .ok ())
      (ho : checkOpened t = .ok ()) :
      Advance op act info k (.guarded t g) .readTgid (.leaderRead t g)
  | noStat {t : Target} {g : Guard} (h : (k.stat t.pid).bind parseStat = none) :
      Advance op act info k (.leaderRead t g) .readStat (.failed (gone t))
  | stat {t : Target} {g : Guard} {startTimeTicks : Nat}
      (h : (k.stat t.pid).bind parseStat = some startTimeTicks) :
      Advance op act info k (.leaderRead t g) .readStat (.statRead t g startTimeTicks)
  | differs {t : Target} {g : Guard} {startTimeTicks : Nat} {e : ProcessError}
      (h : checkIdentity t g
        (((k.status t.pid).bind parseUid).map fun uid => { startTimeTicks, uid }) = .error e) :
      Advance op act info k (.statRead t g startTimeTicks) .readStatus (.failed e)
  | status {t : Target} {g : Guard} {startTimeTicks : Nat}
      (h : checkIdentity t g
        (((k.status t.pid).bind parseUid).map fun uid => { startTimeTicks, uid }) = .ok ()) :
      Advance op act info k (.statRead t g startTimeTicks) .readStatus (.checked t g)
  | noRoute {t : Target} {g : Guard} {permits : Task → Bool} (h : sendVia t = none) :
      Advance op act info k (.checked t g) (.send permits)
        (.failed (sendFailed act.signal t "invalid pid"))
  | unsent {t : Target} {g : Guard} {permits : Task → Bool} {route : Route} {e : Str}
      (hroute : sendVia t = some route) (he : k.deliver permits route = .error e) :
      Advance op act info k (.checked t g) (.send permits) (.failed (sendFailed act.signal t e))
  | sent {t : Target} {g : Guard} {permits : Task → Bool} {route : Route} {v : Task}
      (hroute : sendVia t = some route) (hv : k.deliver permits route = .ok v) :
      Advance op act info k (.checked t g) (.send permits) (.delivered g route v)

theorem advance_of_next {op : Operator} {act : Action} {info : ProcessInfo} {k : Kernel} {p q : Phase}
    {a : Label} (h : next op act info k p a = some q) : Advance op act info k p a q := by
  unfold next at h
  split at h
  case h_1 opened =>
    split at h
    · cases h
      exact .select ‹_›
    · cases h
  case h_2 t out =>
    split at h
    · cases h
      exact .noTree ‹_›
    · cases h
      exact .tree ‹_›
  case h_3 t tree i entries =>
    obtain ⟨parent, hp, rfl⟩ := Option.map_eq_some_iff.mp h
    exact .readDir hp
  case h_4 t tree i =>
    split at h
    · cases h
      exact .endScan (Option.isNone_iff_eq_none.mp ‹_›)
    · cases h
  case h_5 t tree i parent pid rest =>
    cases h
    exact .readPpid
  case h_6 t tree i parent =>
    cases h
    exact .endDir
  case h_7 t g =>
    split at h
    · rename_i he
      cases h
      exact .refused (.inl he)
    · rename_i hl
      split at h
      · rename_i he
        cases h
        exact .refused (.inr he)
      · cases h
        exact .leader hl ‹_›
  case h_8 t g =>
    split at h
    · cases h
      exact .noStat ‹_›
    · cases h
      exact .stat ‹_›
  case h_9 t g start =>
    split at h
    · cases h
      exact .differs ‹_›
    · cases h
      exact .status ‹_›
  case h_10 t g permits =>
    split at h
    · cases h
      exact .noRoute ‹_›
    · rename_i route hroute
      split at h
      · cases h
        exact .unsent hroute ‹_›
      · cases h
        exact .sent hroute ‹_›
  case h_11 => cases h

/-! ## What the pidfd holds on to -/

/-- `X` is true of the process of the pidfd, as long as it is in the table. -/
def Holds (k : Kernel) (t : Target) (X : Birth → Prop) : Prop :=
  ∀ fd, t.pidfd = some fd → ∃ b ∈ k.born, b.id = fd ∧ (k.Alive fd → X b)

variable {k k' : Kernel} {t : Target} {X Y : Birth → Prop} {op : Operator} {act : Action}
  {info : ProcessInfo} {w w' : World}

theorem Holds.mono (h : Holds k t X) (hXY : ∀ b, X b → Y b) : Holds k t Y := by
  intro fd hfd
  obtain ⟨b, hb, hid, hX⟩ := h fd hfd
  exact ⟨b, hb, hid, fun ha => hXY b (hX ha)⟩

theorem Holds.event {e : Kernel.Event} (h : Holds k t X) (he : k.step e = some k') :
    Holds k' t X := by
  intro fd hfd
  obtain ⟨b, hb, rfl, hX⟩ := h fd hfd
  exact ⟨b, Kernel.born_subset_of_step he hb, rfl, fun ha => hX (Kernel.alive_of_step he hb ha)⟩

/-- A file read under the PID is the file of the pidfd's process, if that is still there. -/
theorem Holds.read (h : Holds k t X) (hpid : ∀ b, X b → b.pid = t.pid)
    (hread : ∀ v ∈ k.tasks, k.find t.pid = some v → X v.birth → Y v.birth) : Holds k t Y := by
  intro fd hfd
  obtain ⟨b, hb, rfl, hX⟩ := h fd hfd
  refine ⟨b, hb, rfl, fun ha => ?_⟩
  obtain ⟨v, hv, hid⟩ := ha
  have hbirth : v.birth = b := Kernel.birth_eq_of_id (k.recorded v hv) hb hid
  have hXb : X b := hX ⟨v, hv, hid⟩
  have hvpid : v.pid = t.pid := (congrArg Birth.pid hbirth).trans (hpid b hXb)
  subst hbirth
  exact hread v hv (Kernel.find_eq_some.mpr ⟨hv, hvpid⟩) hXb

theorem holds_select {opened : Except Errno Nat} (h : opensHolder k info.pid opened = true) :
    Holds k (Target.select info opened) fun b => b.pid = info.pid := by
  intro fd hfd
  rw [Target.select_pidfd hfd] at h
  cases hf : k.find info.pid with
  | none => simp [opensHolder, hf] at h
  | some v =>
    obtain ⟨hv, hp⟩ := Kernel.find_eq_some.mp hf
    have hid : v.id = fd := by simpa [opensHolder, hf] using h
    exact ⟨v.birth, k.recorded v hv, hid, fun _ => hp⟩

/-! ## What the reads establish -/

/-- What `Target.select` takes from the row. -/
def IsRow (info : ProcessInfo) (t : Target) : Prop := t.pid = info.pid ∧ t.identity = info.identity

/-- The row is not structurally protected. -/
structure Signallable (op : Operator) (info : ProcessInfo) (g : Guard) : Prop where
  not_init : info.pid ≠ 1
  not_self : info.pid ≠ op.pid
  not_runtime : info.pid ∉ g.runtimePids

/-- At the read of the status file `b` was there with the row's uid, one of the operator's. -/
def OwnerSeen (op : Operator) (act : Action) (info : ProcessInfo) (k : Kernel) (as : List Label)
    (b : Birth) : Prop :=
  ∃ as₁ as₂ w, as = as₁ ++ .readStatus :: as₂ ∧
    Machine.run (step op act info) ⟨k, .start⟩ as₁ = some w ∧
    ∃ c ∈ w.kernel.tasks, c.birth = b ∧ c.uid = info.uid ∧ c.uid ∈ op.uids

/-- What each phase knows: of the row, and of the pidfd's process while that is in the table. -/
def Inv (op : Operator) (act : Action) (info : ProcessInfo) (k : Kernel) (as : List Label)
    (w : World) : Prop :=
  match w.phase with
  | .start | .failed _ => True
  | .selected t | .scanning t _ _ | .inDir t _ _ _ _ =>
    IsRow info t ∧ Holds w.kernel t fun b => b.pid = info.pid
  | .guarded t g =>
    IsRow info t ∧ (∃ tree, g = Guard.current op tree) ∧ Holds w.kernel t fun b => b.pid = info.pid
  | .leaderRead t g =>
    IsRow info t ∧ (∃ tree, g = Guard.current op tree) ∧ Signallable op info g ∧
      Holds w.kernel t fun b => b.pid = info.pid ∧ b.tgid = info.pid
  | .statRead t g startTimeTicks =>
    IsRow info t ∧ (∃ tree, g = Guard.current op tree) ∧ Signallable op info g ∧
      Holds w.kernel t fun b => b.pid = info.pid ∧ b.tgid = info.pid ∧
        b.startTimeTicks = startTimeTicks
  | .checked t g =>
    (∃ tree, g = Guard.current op tree) ∧ Signallable op info g ∧
      Holds w.kernel t fun b => b.pid = info.pid ∧ b.tgid = info.pid ∧
        b.startTimeTicks = info.startTimeTicks ∧ OwnerSeen op act info k as b
  | .delivered g route v => ∀ fd, route = .pidfd fd →
    (∃ tree, g = Guard.current op tree) ∧ Signallable op info g ∧ v.id = fd ∧
      v.birth ∈ w.kernel.born ∧ v.pid = info.pid ∧ v.tgid = info.pid ∧
      v.startTimeTicks = info.startTimeTicks ∧ OwnerSeen op act info k as v.birth

variable {k₀ : Kernel} {as : List Label} {a : Label} {b : Birth} {p : Phase} {g : Guard}

theorem OwnerSeen.snoc (h : OwnerSeen op act info k₀ as b) (a : Label) :
    OwnerSeen op act info k₀ (as ++ [a]) b := by
  obtain ⟨as₁, as₂, w, rfl, hr, hc⟩ := h
  exact ⟨as₁, as₂ ++ [a], w, by simp, hr, hc⟩

theorem Inv.event {e : Kernel.Event} (h : Inv op act info k₀ as w)
    (he : w.kernel.step e = some k') :
    Inv op act info k₀ (as ++ [.kernel e]) { w with kernel := k' } := by
  unfold Inv at h ⊢
  revert h
  cases w.phase with
  | start | failed _ => exact id
  | selected t | scanning t _ _ | inDir t _ _ _ _ => exact fun ⟨hrow, hp⟩ => ⟨hrow, hp.event he⟩
  | guarded t g => exact fun ⟨hrow, hg, hp⟩ => ⟨hrow, hg, hp.event he⟩
  | leaderRead t g => exact fun ⟨hrow, hg, hs, hp⟩ => ⟨hrow, hg, hs, hp.event he⟩
  | statRead t g start => exact fun ⟨hrow, hg, hs, hp⟩ => ⟨hrow, hg, hs, hp.event he⟩
  | checked t g =>
    rintro ⟨hg, hs, hp⟩
    exact ⟨hg, hs, (hp.event he).mono fun b ⟨h1, h2, h3, h4⟩ => ⟨h1, h2, h3, h4.snoc _⟩⟩
  | delivered g route v =>
    intro h fd hfd
    obtain ⟨hg, hs, hid, hb, hp, ht, hst, ho⟩ := h fd hfd
    exact ⟨hg, hs, hid, Kernel.born_subset_of_step he hb, hp, ht, hst, ho.snoc _⟩

theorem Holds.readTgid (hrow : IsRow info t) (h : Holds k t fun b => b.pid = info.pid)
    (hl : checkLeader t g ((tgid (k.status t.pid)).getD t.pid) = .ok ()) :
    Holds k t fun b => b.pid = info.pid ∧ b.tgid = info.pid := by
  refine h.read (fun b hb => hb.trans hrow.1.symm) fun v _ hfind hp => ⟨hp, ?_⟩
  have htgid := (checkLeader_ok.mp hl).1
  rw [Kernel.tgid_status, hfind] at htgid
  exact htgid.trans hrow.1

theorem Holds.readStat (hrow : IsRow info t) {start : Nat}
    (h : Holds k t fun b => b.pid = info.pid ∧ b.tgid = info.pid)
    (hs : (k.stat t.pid).bind parseStat = some start) :
    Holds k t fun b => b.pid = info.pid ∧ b.tgid = info.pid ∧ b.startTimeTicks = start := by
  refine h.read (fun b hb => hb.1.trans hrow.1.symm) fun v _ hfind hp => ⟨hp.1, hp.2, ?_⟩
  rw [Kernel.parseStat_stat, hfind, Option.bind_some] at hs
  split at hs
  · cases hs
  · exact Option.some.inj hs

/-- The uid read is the owner of the pidfd's process at that moment. -/
theorem Holds.readStatus (hrow : IsRow info t) (hg : ∃ tree, g = Guard.current op tree) {start : Nat}
    (h : Holds w.kernel t fun b => b.pid = info.pid ∧ b.tgid = info.pid ∧ b.startTimeTicks = start)
    (hr : Machine.run (step op act info) ⟨k₀, .start⟩ as = some w)
    (hc : checkIdentity t g (((w.kernel.status t.pid).bind parseUid).map fun uid =>
      { startTimeTicks := start, uid }) = .ok ()) :
    Holds w.kernel t fun b => b.pid = info.pid ∧ b.tgid = info.pid ∧
      b.startTimeTicks = info.startTimeTicks ∧
      OwnerSeen op act info k₀ (as ++ [.readStatus]) b := by
  obtain ⟨hid, howned⟩ := checkIdentity_ok.mp hc
  obtain ⟨tree, rfl⟩ := hg
  refine h.read (fun b hb => hb.1.trans hrow.1.symm) fun v hv hfind hp => ⟨hp.1, hp.2.1, ?_⟩
  rw [Kernel.parseUid_status, hfind, hrow.2] at hid
  rw [hrow.2] at howned
  have hident : (⟨start, v.uid⟩ : Identity) = info.identity := Option.some.inj hid
  have hstart : start = info.startTimeTicks := congrArg Identity.startTimeTicks hident
  have huid : v.uid = info.uid := congrArg Identity.uid hident
  exact ⟨hp.2.2.trans hstart, as, [], w, rfl, hr, v, hv, rfl, huid, huid ▸ howned⟩

theorem pidfd_of_sendVia {fd : Nat} (h : sendVia t = some (.pidfd fd)) : t.pidfd = some fd := by
  unfold sendVia at h
  split at h
  · rename_i hfd
    cases h
    exact hfd
  · split at h <;> cases h

theorem signallable_of_checkLeader (hrow : IsRow info t) (hg : ∃ tree, g = Guard.current op tree)
    {leader : Nat} (h : checkLeader t g leader = .ok ()) : Signallable op info g := by
  obtain ⟨-, hinit, hself, hrt⟩ := checkLeader_ok.mp h
  obtain ⟨tree, rfl⟩ := hg
  rw [hrow.1] at hinit hself hrt
  exact ⟨hinit, hself, hrt⟩

theorem Inv.next (h : Inv op act info k₀ as w)
    (hr : Machine.run (step op act info) ⟨k₀, .start⟩ as = some w)
    (hn : next op act info w.kernel w.phase a = some p) :
    Inv op act info k₀ (as ++ [a]) { w with phase := p } := by
  have hm := advance_of_next hn
  obtain ⟨k, phase⟩ := w
  dsimp only at hm
  cases hm with
  | select hopen => exact ⟨⟨rfl, rfl⟩, holds_select hopen⟩
  | noTree => exact ⟨h.1, ⟨_, rfl⟩, h.2⟩
  | tree | readDir | readPpid | endDir => exact h
  | endScan => exact ⟨h.1, ⟨_, rfl⟩, h.2⟩
  | refused | noStat | differs | noRoute | unsent => trivial
  | leader hl ho =>
    obtain ⟨hrow, hg, hp⟩ := h
    exact ⟨hrow, hg, signallable_of_checkLeader hrow hg hl, hp.readTgid hrow hl⟩
  | stat hs =>
    obtain ⟨hrow, hg, hsig, hp⟩ := h
    exact ⟨hrow, hg, hsig, hp.readStat hrow hs⟩
  | @status t g start hc =>
    obtain ⟨hrow, hg, hsig, hp⟩ := h
    exact ⟨hg, hsig, Holds.readStatus (w := ⟨k, .statRead t g start⟩) hrow hg hp hr hc⟩
  | @sent t g permits route v hroute hv =>
    obtain ⟨hg, hsig, hp⟩ := h
    rintro fd rfl
    obtain ⟨hv, hid⟩ := Kernel.byId_eq_some.mp (Kernel.deliver_eq_ok.mp hv).1
    obtain ⟨b, hb, hbid, hX⟩ := hp fd (pidfd_of_sendVia hroute)
    have hbirth : v.birth = b := Kernel.birth_eq_of_id (k.recorded v hv) hb (hid.trans hbid.symm)
    obtain ⟨hpid, htgid, hstart, ho⟩ := hX ⟨v, hv, hid⟩
    subst hbirth
    exact ⟨hg, hsig, hid, hb, hpid, htgid, hstart, ho.snoc _⟩

theorem inv_of_run (hr : Machine.run (step op act info) ⟨k₀, .start⟩ as = some w) :
    Inv op act info k₀ as w := by
  have h0 : Inv op act info k₀ [] ⟨k₀, .start⟩ := trivial
  refine Machine.run_history h0 ?_ hr
  intro as w a w' hr h hs
  cases a with
  | kernel e =>
    obtain ⟨k', he, rfl⟩ := Option.map_eq_some_iff.mp hs
    exact h.event he
  | _ =>
    obtain ⟨p, hn, rfl⟩ := Option.map_eq_some_iff.mp hs
    exact h.next hr hn

/-- `v` is what the row describes, and nothing the guard holds back. -/
structure Described (op : Operator) (info : ProcessInfo) (k : Kernel) (g : Guard) (v : Task) :
    Prop where
  pid_eq : v.pid = info.pid
  start_eq : v.startTimeTicks = info.startTimeTicks
  /-- No other process was ever born on the PID at that time. -/
  only : ∀ b ∈ k.born, b.pid = info.pid → b.startTimeTicks = info.startTimeTicks → b = v.birth
  leader : v.isLeader
  guard : ∃ tree, g = Guard.current op tree
  not_init : v.pid ≠ 1
  not_self : v.pid ≠ op.pid
  not_runtime : v.pid ∉ g.runtimePids

/-- **A signal through the pidfd reaches the process the row describes**, in every interleaving of
the action with births, exits, zombies, reaping and PID reuse; and that process had the row's uid,
one of the operator's, when its status was read. -/
theorem pidfd_delivery {op : Operator} {act : Action} {info : ProcessInfo} {k : Kernel}
    {as : List Label} {w : World} {g : Guard} {fd : Nat} {v : Task}
    (hr : Machine.run (step op act info) ⟨k, .start⟩ as = some w)
    (hd : w.phase = .delivered g (.pidfd fd) v) :
    v.id = fd ∧ Described op info w.kernel g v ∧ OwnerSeen op act info k as v.birth := by
  have h := inv_of_run hr
  unfold Inv at h
  rw [hd] at h
  obtain ⟨hg, hs, hid, hb, hpid, htgid, hstart, ho⟩ := h fd rfl
  refine ⟨hid, ⟨hpid, hstart, fun b hb' hp hst => ?_, htgid.trans hpid.symm, hg,
    hpid ▸ hs.not_init, hpid ▸ hs.not_self, hpid ▸ hs.not_runtime⟩, ho⟩
  exact Kernel.birth_eq_of_start hb' hb (hp.trans hpid.symm) (hst.trans hstart.symm)

/-! ## Undisturbed runs -/

/-- The action's own steps lead from one phase to another while the table stays as it is. -/
def Quiet (op : Operator) (act : Action) (info : ProcessInfo) (k : Kernel) (p q : Phase) : Prop :=
  ∃ as, (∀ a ∈ as, a.isKernel = false) ∧
    Machine.run (step op act info) ⟨k, p⟩ as = some ⟨k, q⟩

variable {q r : Phase}

theorem Quiet.refl : Quiet op act info k p p := ⟨[], by simp, rfl⟩

theorem Quiet.trans (h : Quiet op act info k p q) (h' : Quiet op act info k q r) :
    Quiet op act info k p r := by
  obtain ⟨as, hq, hr⟩ := h
  obtain ⟨bs, hq', hr'⟩ := h'
  refine ⟨as ++ bs, fun a ha => ?_, Machine.run_append_eq_some.mpr ⟨_, hr, hr'⟩⟩
  exact (List.mem_append.mp ha).elim (hq a) (hq' a)

theorem Quiet.single (ha : a.isKernel = false) (h : next op act info k p a = some q) :
    Quiet op act info k p q := by
  refine ⟨[a], by simpa using ha, ?_⟩
  cases a with
  | kernel e => cases ha
  | _ => simp [Machine.run_cons, step, h]

theorem quiet_inDir {tree : List Nat} {i parent : Nat} {entries : List Nat} :
    Quiet op act info k (.inDir t tree i parent entries) (.scanning t (Worklist.addNew tree
      (entries.filter fun pid => (k.status pid).bind parsePpid = some parent)) (i + 1)) := by
  induction entries generalizing tree with
  | nil => exact .single (a := .endDir) rfl rfl
  | cons pid rest ih =>
    refine Quiet.trans (.single (a := .readPpid) rfl rfl) ?_
    by_cases hp : (k.status pid).bind parsePpid = some parent
    · rw [if_pos hp, List.filter_cons_of_pos (by simpa using hp)]
      exact ih
    · rw [if_neg hp, List.filter_cons_of_neg (by simpa using hp)]
      exact ih

theorem quiet_scanning {fuel : Nat} {tree done : List Nat} {i : Nat}
    (h : Worklist.loop (childPids k.texts) fuel tree i = some done) :
    Quiet op act info k (.scanning t tree i) (.guarded t (Guard.current op done)) := by
  have hend {tree : List Nat} {i : Nat} (hi : tree[i]? = none) :
      Quiet op act info k (.scanning t tree i) (.guarded t (Guard.current op tree)) :=
    .single (a := .endScan) rfl (by simp [next, hi])
  induction fuel generalizing tree i with
  | zero =>
    unfold Worklist.loop at h
    split at h
    · cases h
      exact hend (Option.isNone_iff_eq_none.mp ‹_›)
    · cases h
  | succ fuel ih =>
    unfold Worklist.loop at h
    split at h
    · cases h
      exact hend ‹_›
    · rename_i parent hi
      have hdir : next op act info k (.scanning t tree i) (.readDir k.listing) =
          some (.inDir t tree i parent k.listing) := by simp [next, hi]
      exact (Quiet.single rfl hdir).trans (quiet_inDir.trans (ih h))

theorem quiet_query (out : Option QueryOutput) :
    Quiet op act info k (.selected t) (.guarded t (Guard.current op (runtimeTree k.texts out))) := by
  cases h : queryRoot out with
  | none =>
    rw [runtimeTree_of_none h]
    exact .single (a := .query out) rfl (by simp [next, h])
  | some root =>
    obtain ⟨tree, ht, -⟩ := loop_childPids k.texts root
    have hq : next op act info k (.selected t) (.query out) = some (.scanning t [root] 0) := by
      simp [next, h]
    have htree : runtimeTree k.texts out = tree := by simp [runtimeTree, h, ht]
    rw [htree]
    exact (Quiet.single rfl hq).trans (quiet_scanning ht)

/-- A phase is the outcome of a guarded signal. -/
def Outcome (t : Target) (g : Guard) : Except ProcessError Task → Phase → Prop
  | .ok v, p => ∃ route, sendVia t = some route ∧ p = .delivered g route v
  | .error e, p => p = .failed e

theorem identity_eq (stat status : Option Str) : identity stat status =
    (stat.bind parseStat).bind fun startTimeTicks =>
      (status.bind parseUid).map fun uid => { startTimeTicks, uid } := by
  cases stat with
  | none => rfl
  | some s =>
    cases hs : parseStat s with
    | none => simp [identity, hs]
    | some start => cases status <;> simp [identity, hs, Option.map_eq_bind]

theorem quiet_guarded (permits : Task → Bool) (t : Target) (g : Guard) :
    ∃ p, Quiet op act info k (.guarded t g) p ∧
      Outcome t g (guarded act.signal k k.texts permits t g) p := by
  cases hl : checkLeader t g ((tgid (k.status t.pid)).getD t.pid) with
  | error e =>
    refine ⟨.failed e, .single (a := .readTgid) rfl (by simp [next, hl]), ?_⟩
    simp [guarded, check, hl, bind, Except.bind, Outcome]
  | ok u =>
  cases ho : checkOpened t with
  | error e =>
    refine ⟨.failed e, .single (a := .readTgid) rfl (by simp [next, hl, ho]), ?_⟩
    simp [guarded, check, hl, ho, bind, Except.bind, Outcome]
  | ok u =>
  have htgid : Quiet op act info k (.guarded t g) (.leaderRead t g) :=
    .single (a := .readTgid) rfl (by simp [next, hl, ho])
  have hcheck : check t g (k.status t.pid) (k.stat t.pid) (k.status t.pid) =
      checkIdentity t g (identity (k.stat t.pid) (k.status t.pid)) := by
    simp [check, hl, ho, bind, Except.bind]
  rw [identity_eq] at hcheck
  cases hs : (k.stat t.pid).bind parseStat with
  | none =>
    refine ⟨.failed (gone t), htgid.trans (.single (a := .readStat) rfl (by simp [next, hs])), ?_⟩
    simp [guarded, hcheck, hs, checkIdentity, Outcome]
  | some start =>
  have hstat : Quiet op act info k (.guarded t g) (.statRead t g start) :=
    htgid.trans (.single (a := .readStat) rfl (by simp [next, hs]))
  rw [hs, Option.bind_some] at hcheck
  cases hi : checkIdentity t g (((k.status t.pid).bind parseUid).map fun uid =>
      { startTimeTicks := start, uid }) with
  | error e =>
    refine ⟨.failed e, hstat.trans (.single (a := .readStatus) rfl (by simp only [next, hi])), ?_⟩
    simp only [guarded, Kernel.texts_status, Kernel.texts_stat, hcheck, hi, Outcome]
  | ok u =>
  have hstatus : Quiet op act info k (.guarded t g) (.checked t g) :=
    hstat.trans (.single (a := .readStatus) rfl (by simp only [next, hi]))
  rw [hi] at hcheck
  have hsend {p : Phase} (h : next op act info k (.checked t g) (.send permits) = some p) :
      Quiet op act info k (.guarded t g) p := hstatus.trans (.single (a := .send permits) rfl h)
  cases hv : sendVia t with
  | none =>
    refine ⟨.failed (sendFailed act.signal t "invalid pid"), hsend (by rw [next, hv]), ?_⟩
    simp only [guarded, Kernel.texts_status, Kernel.texts_stat, hcheck, send, hv, Outcome]
  | some route =>
    cases hd : k.deliver permits route with
    | error e =>
      refine ⟨.failed (sendFailed act.signal t e), hsend (by simp only [next, hv, hd]), ?_⟩
      simp only [guarded, Kernel.texts_status, Kernel.texts_stat, hcheck, send, hv, hd, Outcome]
    | ok v =>
      refine ⟨.delivered g route v, hsend (by simp only [next, hv, hd]), ?_⟩
      simp only [guarded, Kernel.texts_status, Kernel.texts_stat, hcheck, send, hv, hd, Outcome]
      exact ⟨route, rfl, rfl⟩

/-- On a still table the steps of an action end as `runAction` does. -/
theorem exists_quiet_run (k : Kernel) (permits : Task → Bool) (op : Operator) (act : Action)
    (info : ProcessInfo) (out : Option QueryOutput) {opened : Except Errno Nat}
    (ho : opensHolder k info.pid opened = true) : ∃ p, Quiet op act info k .start p ∧
      Outcome (Target.select info opened) (Guard.current op (runtimeTree k.texts out))
        (runAction act k k.texts permits op out (Target.select info opened)) p := by
  obtain ⟨p, hq, hp⟩ : ∃ p, Quiet op act info k (.guarded (Target.select info opened) _) p ∧
      Outcome _ _ (runAction act k k.texts permits op out (Target.select info opened)) p :=
    quiet_guarded permits (Target.select info opened) (Guard.current op (runtimeTree k.texts out))
  have hsel : next op act info k .start (.select opened) =
      some (.selected (Target.select info opened)) := if_pos ho
  exact ⟨p, (Quiet.single rfl hsel).trans ((quiet_query out).trans hq), hp⟩

/-- The router of `routerTable`, signalled through its pidfd. -/
theorem pidfd_delivery_router : ∃ as w g v,
    Machine.run (step routerOperator .terminate (rowOf routerTask)) ⟨routerTable, .start⟩ as =
      some w ∧
    w.phase = .delivered g (.pidfd 0) v ∧ v.id = 0 ∧
    Described routerOperator (rowOf routerTask) w.kernel g v ∧
    OwnerSeen routerOperator .terminate (rowOf routerTask) routerTable as v.birth := by
  have ho : opensHolder routerTable (rowOf routerTask).pid (.ok 0) = true := by decide
  obtain ⟨p, ⟨as, -, hr⟩, hp⟩ :=
    exists_quiet_run routerTable (fun _ => true) routerOperator .terminate (rowOf routerTask) none ho
  rw [runAction_router] at hp
  obtain ⟨route, hroute, rfl⟩ := hp
  have hpidfd : route = .pidfd 0 := (Option.some.inj hroute).symm
  subst hpidfd
  exact ⟨as, _, _, _, hr, rfl, pidfd_delivery hr rfl⟩

end Saltnitor.Process
