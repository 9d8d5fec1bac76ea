import Saltnitor.Process.Files

/-!
# The runtime's tree

`runtimeTree` asks systemd for the service's main PID and collects its
descendants from `/proc`; `runAction` is what `x` and a confirmed `X` do with
it. Both see `/proc` as far as it can be read (`Files`): a process whose files may
not be opened, or whose name is no text, hides itself and what is below it. On a
table that stays as it is, the
scan lists exactly what is linked to the printed PID (`mem_runtimeTree`), and the
actions spare the service's tree exactly when every member they could signal is
linked so (`protects_iff_covered`). A query that names no PID protects nothing.
-/

namespace Saltnitor.Process

open Rust

/-! ## The scan -/

/-- `systemctl show -p MainPID --value`: its exit status, which nothing reads, and its output. -/
structure QueryOutput where
  exitCode : Int
  stdout : Str

/-- The PID the query names; there is no output when systemctl cannot be run. -/
def queryRoot (out : Option QueryOutput) : Option Nat :=
  (out.bind fun o => parseUnsigned 32 (trim o.stdout)).filter (0 < ·)

/-- The directories of `/proc` whose status file names `parent` as the parent. -/
def childPids (files : Files) (parent : Nat) : List Nat :=
  files.listing.filter fun pid => (files.status pid).bind parsePpid = some parent

def runtimeTree (files : Files) (out : Option QueryOutput) : List Nat :=
  match queryRoot out with
  | none => []
  | some root => (Worklist.loop (childPids files) (files.listing.length + 1) [root] 0).getD []

/-- `b` is a process whose parent is `a`. -/
def Parent (k : Kernel) (a b : Nat) : Prop := ∃ t ∈ k.tasks, t.isLeader ∧ t.pid = b ∧ t.ppid = a

/-- The main process of a service, or one of its descendants. -/
def InTree (k : Kernel) (main pid : Nat) : Prop := Relation.ReflTransGen (Parent k) main pid

/-- The link from a process to its parent, where the directory can be listed and its status file read. -/
def ShownParent (k : Kernel) (comm : Nat → List UInt8) (acc : Access) (a b : Nat) : Prop :=
  acc.lists = true ∧ ∃ t ∈ k.tasks, t.isLeader ∧ t.pid = b ∧ t.ppid = a ∧ Legible comm acc t

/-- What the scan can follow from `root`. -/
def InShownTree (k : Kernel) (comm : Nat → List UInt8) (acc : Access) (root pid : Nat) : Prop :=
  Relation.ReflTransGen (ShownParent k comm acc) root pid

variable {k : Kernel} {comm : Nat → List UInt8} {acc : Access} {files : Files} {permits : Task → Bool}
  {op : Operator} {out : Option QueryOutput} {a b main pid : Nat}

theorem mem_listing : pid ∈ k.listing ↔ ∃ t ∈ k.tasks, t.isLeader ∧ t.pid = pid := by
  simp [Kernel.listing, and_assoc]

theorem mem_childPids : b ∈ childPids (k.files comm acc) a ↔ ShownParent k comm acc a b := by
  rw [childPids, List.mem_filter, decide_eq_true_iff, Kernel.ppid_files, ShownParent]
  cases hl : acc.lists with
  | false => simp [Kernel.files, hl]
  | true =>
    simp only [Kernel.files, hl, if_true, mem_listing, true_and]
    constructor
    · rintro ⟨⟨t, ht, hl, hp⟩, u, hu, hpu, hpp, hs⟩
      cases Kernel.eq_of_pid hu ht (hpu.trans hp.symm)
      exact ⟨t, ht, hl, hp, hpp, hs⟩
    · rintro ⟨t, ht, hl, hp, hpp, hs⟩
      exact ⟨⟨t, ht, hl, hp⟩, t, ht, hp, hpp, hs⟩

theorem loop_childPids (files : Files) (root : Nat) : ∃ tree,
    Worklist.loop (childPids files) (files.listing.length + 1) [root] 0 = some tree ∧ tree.Nodup ∧
      ∀ pid, pid ∈ tree ↔ Relation.ReflTransGen (fun a b => b ∈ childPids files a) root pid :=
  Worklist.loop_root (fun _ _ => List.mem_of_mem_filter) le_rfl root

theorem mem_runtimeTree : pid ∈ runtimeTree (k.files comm acc) out ↔
    ∃ root, queryRoot out = some root ∧ InShownTree k comm acc root pid := by
  have hparent : (fun a b => b ∈ childPids (k.files comm acc) a) = ShownParent k comm acc := by
    funext a b
    exact propext mem_childPids
  unfold runtimeTree
  cases h : queryRoot out with
  | none => simp
  | some root =>
    obtain ⟨tree, ht, -, hm⟩ := loop_childPids (k.files comm acc) root
    simp [ht, hm, hparent, InShownTree]

/-- No PID, no tree: the guard then holds no runtime process back. -/
theorem runtimeTree_of_none (h : queryRoot out = none) : runtimeTree files out = [] := by
  rw [runtimeTree, h]

/-! ## The actions -/

/-- `x`, and `X` once it is confirmed. -/
inductive Action where
  | terminate
  | confirmKill
  deriving DecidableEq

def Action.signal : Action → Signal
  | .terminate => .term
  | .confirmKill => .kill

def send (k : Kernel) (permits : Task → Bool) (t : Target) : Except Str Task :=
  match sendVia t with
  | none => .error "invalid pid"
  | some route => k.deliver permits route

/-- The checks and the signal, with the process it went to: `kill_guarded`, and `terminate_guarded`
up to its wait for the exit, which signals nothing. -/
def guarded (sig : Signal) (k : Kernel) (files : Files) (permits : Task → Bool) (t : Target)
    (g : Guard) : Except ProcessError Task :=
  match check t g (files.status t.pid) (files.stat t.pid) (files.status t.pid) with
  | .error e => .error e
  | .ok () =>
    match send k permits t with
    | .ok v => .ok v
    | .error e => .error (sendFailed sig t e)

def runAction (act : Action) (k : Kernel) (files : Files) (permits : Task → Bool) (op : Operator)
    (out : Option QueryOutput) (t : Target) : Except ProcessError Task :=
  guarded act.signal k files permits t (Guard.current op (runtimeTree files out))

/-- A pidfd opened on `pid`, now or earlier, denotes what was born on it. -/
def Opened (k : Kernel) (pid : Nat) (opened : Except Errno Nat) : Prop :=
  ∀ fd, opened = .ok fd → ∃ b ∈ k.born, b.id = fd ∧ b.pid = pid

/-- A process that nothing but the runtime's tree can hold back. -/
structure Exposed (comm : Nat → List UInt8) (acc : Access) (permits : Task → Bool) (op : Operator)
    (t : Task) : Prop where
  leader : t.isLeader
  legible : Legible comm acc t
  live : ¬ t.isZombie
  not_init : t.pid ≠ 1
  not_self : t.pid ≠ op.pid
  owned : t.uid ∈ op.uids
  permitted : permits t = true

theorem pid_of_holder {info : ProcessInfo} {opened : Except Errno Nat} {route : Route} {v : Task}
    (ho : Opened k info.pid opened) (hr : sendVia (Target.select info opened) = some route)
    (hv : k.holder route = some v) : v ∈ k.tasks ∧ v.pid = info.pid := by
  unfold sendVia at hr
  cases hfd : (Target.select info opened).pidfd with
  | none =>
    simp only [hfd] at hr
    split at hr
    · cases hr
      exact Kernel.find_eq_some.mp hv
    · cases hr
  | some fd =>
    simp only [hfd, Option.some.injEq] at hr
    subst hr
    obtain ⟨b, hb, rfl, hp⟩ := ho fd (Target.select_pidfd hfd)
    obtain ⟨hvt, hid⟩ := Kernel.byId_eq_some.mp hv
    have hbirth : v.birth = b := Kernel.birth_eq_of_id (k.recorded v hvt) hb hid
    exact ⟨hvt, (congrArg Birth.pid hbirth).trans hp⟩

theorem guarded_eq_ok {sig : Signal} {t : Target} {g : Guard} {v : Task} :
    guarded sig k files permits t g = .ok v ↔
      check t g (files.status t.pid) (files.stat t.pid) (files.status t.pid) = .ok () ∧
      ∃ route, sendVia t = some route ∧ k.holder route = some v ∧ permits v = true := by
  unfold guarded send
  cases check t g (files.status t.pid) (files.stat t.pid) (files.status t.pid) with
  | error e => simp only [reduceCtorEq, false_and]
  | ok u =>
    cases sendVia t with
    | none => simp only [reduceCtorEq, false_and, exists_false, and_false]
    | some route =>
      simp only [Option.some.injEq, exists_eq_left', true_and, ← Kernel.deliver_eq_ok]
      cases k.deliver permits route <;> simp only [reduceCtorEq, Except.ok.injEq]

theorem runAction_sound {act : Action} {info : ProcessInfo} {opened : Except Errno Nat} {v : Task}
    (ho : Opened k info.pid opened)
    (h : runAction act k (k.files comm acc) permits op out (Target.select info opened) = .ok v) :
    v ∈ k.tasks ∧ v.pid = info.pid ∧ v.startTimeTicks = info.startTimeTicks ∧ v.uid = info.uid ∧
      Exposed comm acc permits op v ∧ v.pid ∉ runtimeTree (k.files comm acc) out := by
  obtain ⟨hcheck, route, hroute, hholder, hpermit⟩ := guarded_eq_ok.mp h
  obtain ⟨hv, hpid⟩ := pid_of_holder ho hroute hholder
  obtain ⟨hleader, -, hident⟩ := check_ok.mp hcheck
  obtain ⟨htgid, hinit, hself, htree⟩ := checkLeader_ok.mp hleader
  obtain ⟨hid, howned⟩ := checkIdentity_ok.mp hident
  simp only [Target.select_pid, Target.select_identity, ← hpid] at htgid hinit hself htree hid
  obtain ⟨u, hu, hup, hlive, hs, hui⟩ := Kernel.identity_files.mp hid
  cases Kernel.eq_of_pid hu hv hup
  rw [Kernel.tgid_files hv hs] at htgid
  have hstart : info.startTimeTicks = v.startTimeTicks := congrArg Identity.startTimeTicks hui
  have huid : info.uid = v.uid := congrArg Identity.uid hui
  exact ⟨hv, hpid, hstart.symm, huid.symm,
    ⟨htgid, hs, hlive, hinit, hself, huid ▸ howned, hpermit⟩, htree⟩

/-- The row of a task, as the process list shows it. -/
def rowOf (t : Task) : ProcessInfo where
  pid := t.pid
  name := t.comm
  memoryBytes := 0
  gpuMemoryBytes := none
  gpuMemoryReason := none
  command := none
  startTimeTicks := t.startTimeTicks
  uid := t.uid

theorem runAction_complete (act : Action) {v : Task} (hv : v ∈ k.tasks)
    (he : Exposed comm acc permits op v) (htree : v.pid ∉ runtimeTree (k.files comm acc) out) :
    Opened k (rowOf v).pid (.ok v.id) ∧
      runAction act k (k.files comm acc) permits op out (Target.select (rowOf v) (.ok v.id)) = .ok v := by
  have hvalid : validPid v.pid = true := by
    have := v.pid_pos
    have := v.pid_lt
    simp [validPid]
    omega
  have hopen : openPidfd v.pid (.ok v.id) = .ok (some v.id) := by simp [openPidfd, hvalid]
  have hfd : (Target.select (rowOf v) (.ok v.id)).pidfd = some v.id := by
    simp [Target.select, rowOf, hopen]
  have herr : (Target.select (rowOf v) (.ok v.id)).openError = none := by
    simp [Target.select, rowOf, hopen]
  refine ⟨?_, guarded_eq_ok.mpr ⟨check_ok.mpr ⟨checkLeader_ok.mpr ⟨?_, he.not_init, he.not_self,
    htree⟩, checkOpened_ok.mpr herr, checkIdentity_ok.mpr ⟨?_, he.owned⟩⟩, .pidfd v.id, ?_, ?_,
    he.permitted⟩⟩
  · rintro fd ⟨⟩
    exact ⟨v.birth, k.recorded v hv, rfl, rfl⟩
  · show (tgid ((k.files comm acc).status v.pid)).getD v.pid = v.pid
    rw [Kernel.tgid_files hv he.legible]
    exact he.leader
  · exact Kernel.identity_files.mpr ⟨v, hv, rfl, he.live, he.legible, rfl⟩
  · rw [sendVia, hfd]
  · exact Kernel.byId_eq_some.mpr ⟨hv, rfl⟩

/-! ## What the query's answer decides -/

/-- Neither action signals a process of the service's tree, whatever row was selected. -/
def Protects (k : Kernel) (comm : Nat → List UInt8) (acc : Access) (permits : Task → Bool)
    (op : Operator) (main : Nat) (out : Option QueryOutput) : Prop :=
  ∀ act info opened v, Opened k info.pid opened →
    runAction act k (k.files comm acc) permits op out (Target.select info opened) = .ok v →
    ¬ InTree k main v.pid

/-- Every exposed process of the service's tree is the printed PID, or below it with a status file
that can be read on every process of the way. -/
def Covered (k : Kernel) (comm : Nat → List UInt8) (acc : Access) (permits : Task → Bool)
    (op : Operator) (main : Nat) (out : Option QueryOutput) : Prop :=
  ∀ t ∈ k.tasks, Exposed comm acc permits op t → InTree k main t.pid →
    ∃ root, queryRoot out = some root ∧ InShownTree k comm acc root t.pid

theorem inShownTree_of_legible (hd : acc.lists = true)
    (hs : ∀ t ∈ k.tasks, InTree k main t.pid → Legible comm acc t) (h : InTree k main pid) :
    InShownTree k comm acc main pid := by
  induction h with
  | refl => exact .refl
  | tail hab hbc ih =>
    obtain ⟨u, hu, hl, rfl, hpp⟩ := hbc
    exact .tail ih ⟨hd, u, hu, hl, rfl, hpp, hs u hu (.tail hab ⟨u, hu, hl, rfl, hpp⟩)⟩

theorem covered_of_main (h : queryRoot out = some main) (hd : acc.lists = true)
    (hs : ∀ t ∈ k.tasks, InTree k main t.pid → Legible comm acc t) :
    Covered k comm acc permits op main out :=
  fun _ _ _ htree => ⟨main, h, inShownTree_of_legible hd hs htree⟩

theorem covered_of_none (h : queryRoot out = none) : Covered k comm acc permits op main out ↔
    ∀ t ∈ k.tasks, Exposed comm acc permits op t → ¬ InTree k main t.pid := by
  simp [Covered, h]

/-- **Protection is as good as the printed PID and what can be read below it.** The actions spare the
service's tree exactly when its exposed members are linked to what systemctl printed by processes
with legible files; with nothing printed they fail open. -/
theorem protects_iff_covered (k : Kernel) (comm : Nat → List UInt8) (acc : Access)
    (permits : Task → Bool) (op : Operator) (main : Nat) (out : Option QueryOutput) :
    Protects k comm acc permits op main out ↔ Covered k comm acc permits op main out := by
  constructor
  · intro h t ht he hmain
    by_contra hno
    obtain ⟨hopened, hrun⟩ := runAction_complete .terminate ht he (mt mem_runtimeTree.mp hno)
    exact h .terminate (rowOf t) (.ok t.id) t hopened hrun hmain
  · intro h act info opened v ho hrun hmain
    obtain ⟨hv, -, -, -, he, htree⟩ := runAction_sound ho hrun
    exact htree (mem_runtimeTree.mpr (h v hv he hmain))

/-- The router alone in the table, run by the operator's own uid. -/
def routerTask : Task where
  id := 0
  pid := 100
  tgid := 100
  ppid := 1
  startTimeTicks := 7
  uid := 1000
  state := 'S'
  comm := "llama-server"
  shownName := "llama-server"
  statFields := List.replicate 17 "0"
  statRest := []
  uidsRest := "1000\t1000\t1000"
  statusRest := []
  pid_pos := by decide
  pid_lt := by decide
  tgid_lt := by decide
  ppid_lt := by decide
  start_lt := by decide
  uid_lt := by decide
  state_plain := by unfold PlainField; decide
  name_plain := by decide
  fields_plain := by unfold PlainField; decide
  rest_plain := by decide
  uids_plain := by decide

def routerTable : Kernel where
  tasks := [routerTask]
  born := [routerTask.birth]
  pids_nodup := by decide
  recorded := by decide
  ids_nodup := by decide
  starts_nodup := by decide

def routerOperator : Operator := { euid := 1000, ruid := 1000, sudoUid := none, pid := 500 }

/-- The name the router runs under. -/
def routerComm : Nat → List UInt8 := fun _ => bytes "llama-server"

theorem routerTable_files : routerTable.files routerComm .full = routerTable.texts := by
  refine Kernel.files_eq_texts fun t ht => ?_
  cases List.mem_singleton.mp ht
  exact ⟨rfl, by decide⟩

theorem routerTask_exposed : Exposed routerComm .full (fun _ => true) routerOperator routerTask :=
  ⟨rfl, ⟨rfl, _, rfl⟩, by decide, by decide, by decide, Operator.mem_uids.mpr (.inl rfl), rfl⟩

theorem runAction_router (act : Action) :
    runAction act routerTable routerTable.texts (fun _ => true) routerOperator none
      (Target.select (rowOf routerTask) (.ok 0)) = .ok routerTask := by
  have htree : routerTask.pid ∉ runtimeTree (routerTable.files routerComm .full) none := by
    rw [runtimeTree_of_none rfl]
    exact List.not_mem_nil
  rw [← routerTable_files]
  exact (runAction_complete act (List.mem_singleton_self _) routerTask_exposed htree).2

/-- A process below the router, and one below that. -/
def helperTask : Task :=
  { routerTask with
    id := 1, pid := 101, tgid := 101, ppid := 100, pid_pos := by decide, pid_lt := by decide
    tgid_lt := by decide, ppid_lt := by decide }

def workerTask : Task :=
  { routerTask with
    id := 2, pid := 102, tgid := 102, ppid := 101, pid_pos := by decide, pid_lt := by decide
    tgid_lt := by decide, ppid_lt := by decide }

def familyTable : Kernel where
  tasks := [routerTask, helperTask, workerTask]
  born := [routerTask.birth, helperTask.birth, workerTask.birth]
  pids_nodup := by decide
  recorded := by decide
  ids_nodup := by decide
  starts_nodup := by decide

/-- The process in the middle has a name that is no text. -/
def familyComm (id : Nat) : List UInt8 := if id = 1 then [0xFF] else bytes "llama-server"

/-- systemctl cannot be run and `x` on the service's own main process signals it; it prints the main
PID and `x` signals the grandchild behind a name that is no text. -/
theorem not_protects_noQuery :
    ¬ Protects routerTable routerComm .full (fun _ => true) routerOperator 100 none ∧
    ¬ Protects familyTable familyComm .full (fun _ => true) routerOperator 100
      (some { exitCode := 0, stdout := "100\n" }) := by
  constructor
  · intro h
    have ho : Opened routerTable (rowOf routerTask).pid (.ok 0) := by
      rintro fd ⟨⟩
      exact ⟨routerTask.birth, List.mem_singleton_self _, rfl, rfl⟩
    have hrun := runAction_router .terminate
    rw [← routerTable_files] at hrun
    exact h _ _ _ _ ho hrun .refl
  · intro h
    have hmem : workerTask ∈ familyTable.tasks := by simp [familyTable]
    have he : Exposed familyComm .full (fun _ => true) routerOperator workerTask :=
      ⟨rfl, ⟨rfl, _, rfl⟩, by decide, by decide, by decide, Operator.mem_uids.mpr (.inl rfl), rfl⟩
    have htree : workerTask.pid ∉ runtimeTree (familyTable.files familyComm .full)
        (some { exitCode := 0, stdout := "100\n" }) := by decide +kernel
    obtain ⟨ho, hrun⟩ := runAction_complete .terminate hmem he htree
    have hhelper : Parent familyTable 100 101 := ⟨helperTask, by simp [familyTable], rfl, rfl, rfl⟩
    have hworker : Parent familyTable 101 102 := ⟨workerTask, hmem, rfl, rfl, rfl⟩
    exact h _ _ _ _ ho hrun (.tail (.single hhelper) hworker)

end Saltnitor.Process
