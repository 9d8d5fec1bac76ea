import Saltnitor.Process.Proc
import Saltnitor.Error
import Mathlib.Data.List.Dedup

/-!
# Process control

What stands between a row of the process table and a signal: `Target.select`
pins a row with a pidfd, `check` compares what `/proc` says now with the row,
`sendVia` picks the system call. The checks are functions of the texts read and
come in the order the code makes them: `checkLeader` on the status file,
`checkOpened`, `checkIdentity` on the stat and status files.
-/

namespace Saltnitor.Process

open Rust

/-! ## Rows, targets and errors -/

structure ProcessInfo where
  pid : Nat
  name : Str
  memoryBytes : Nat
  gpuMemoryBytes : Option Nat
  gpuMemoryReason : Option Str
  command : Option Str
  startTimeTicks : Nat
  uid : Nat
  deriving DecidableEq

def ProcessInfo.identity (info : ProcessInfo) : Identity :=
  { startTimeTicks := info.startTimeTicks, uid := info.uid }

inductive ProcessError where
  /-- The PID no longer is what the operator selected. -/
  | changed (reason : Str)
  /-- Structurally or by ownership off limits. -/
  | «protected» (reason : Str)
  /-- The kernel refused or failed the signal itself. -/
  | signal (reason : Str)
  deriving DecidableEq

def ProcessError.code : ProcessError → ErrorCode
  | .changed _ | .signal _ => .processChanged
  | .protected _ => .processProtected

/-- Why `pidfd_open` failed. -/
inductive Errno where
  | noSys
  | srch
  | other (text : Str)
  deriving DecidableEq

/-- Only a kernel without pidfds falls back to `kill(2)`. -/
def classifyPidfdErrno : Errno → Except ProcessError (Option Nat)
  | .noSys => .ok none
  | .srch => .error (.changed "the process no longer exists (pidfd_open: ESRCH)")
  | .other text => .error (.signal (("pidfd_open failed: " : Str) ++ text))

/-- A PID the kernel's calls take: positive and 31 bits. -/
def validPid (pid : Nat) : Bool := decide (0 < pid) && decide (pid < 2 ^ 31)

/-- `opened` is the kernel's answer: the id of the process the pidfd denotes, or why there is none. -/
def openPidfd (pid : Nat) (opened : Except Errno Nat) : Except ProcessError (Option Nat) :=
  if validPid pid then
    match opened with
    | .ok fd => .ok (some fd)
    | .error e => classifyPidfdErrno e
  else .error (.changed (toDec pid ++ (" is not a valid PID" : Str)))

structure Target where
  pid : Nat
  name : Str
  identity : Identity
  /-- The process the pidfd denotes. -/
  pidfd : Option Nat
  openError : Option ProcessError
  deriving DecidableEq

def Target.select (info : ProcessInfo) (opened : Except Errno Nat) : Target where
  pid := info.pid
  name := info.name
  identity := info.identity
  pidfd :=
    match openPidfd info.pid opened with
    | .ok fd => fd
    | .error _ => none
  openError :=
    match openPidfd info.pid opened with
    | .ok _ => none
    | .error e => some e

@[simp] theorem Target.select_pid (info : ProcessInfo) (opened : Except Errno Nat) :
    (Target.select info opened).pid = info.pid := rfl

@[simp] theorem Target.select_identity (info : ProcessInfo) (opened : Except Errno Nat) :
    (Target.select info opened).identity = info.identity := rfl

theorem openPidfd_ok_some {pid fd : Nat} {opened : Except Errno Nat}
    (h : openPidfd pid opened = .ok (some fd)) : opened = .ok fd := by
  unfold openPidfd at h
  split at h
  · cases opened with
    | ok p =>
      cases h
      rfl
    | error e => cases e <;> exact absurd h (by simp [classifyPidfdErrno])
  · cases h

theorem Target.select_pidfd {info : ProcessInfo} {opened : Except Errno Nat} {fd : Nat}
    (h : (Target.select info opened).pidfd = some fd) : opened = .ok fd := by
  simp only [Target.select] at h
  split at h
  · rename_i ho
    rw [h] at ho
    exact openPidfd_ok_some ho
  · cases h

/-! ## The guard -/

structure Guard where
  ownUids : List Nat
  selfPid : Nat
  runtimePids : List Nat
  deriving DecidableEq

/-- Who runs the program: its uids, the `SUDO_UID` variable and its PID. -/
structure Operator where
  euid : Nat
  ruid : Nat
  sudoUid : Option Str
  pid : Nat
  deriving DecidableEq

/-- The uids the operator may signal. -/
def Operator.uids (op : Operator) : List Nat :=
  ([op.euid, op.ruid] ++ (op.sudoUid.bind (parseUnsigned 32)).toList).mergeSort.dedup

theorem Operator.mem_uids {op : Operator} {u : Nat} : u ∈ op.uids ↔
    u = op.euid ∨ u = op.ruid ∨ op.sudoUid.bind (parseUnsigned 32) = some u := by
  simp [Operator.uids]

def Guard.current (op : Operator) (runtimePids : List Nat) : Guard :=
  { ownUids := op.uids, selfPid := op.pid, runtimePids }

/-! ## The checks -/

/-- Judge the thread-group leader the PID belongs to. -/
def checkLeader (t : Target) (g : Guard) (leader : Nat) : Except ProcessError Unit :=
  if leader = 1 then .error (.protected "PID 1 is never a target")
  else if leader = g.selfPid then .error (.protected "saltnitor will not signal itself")
  else if g.runtimePids.contains leader then
    .error (.protected (("PID " : Str) ++ toDec t.pid ++
      (" belongs to the runtime's process tree; stop the runtime through its lifecycle (Ctrl+K)" :
        Str)))
  else if leader ≠ t.pid then
    .error (.protected (("PID " : Str) ++ toDec t.pid ++ (" is a thread of PID " : Str) ++
      toDec leader ++ ("; only whole processes can be signalled" : Str)))
  else .ok ()

def checkOpened (t : Target) : Except ProcessError Unit :=
  match t.openError with
  | some e => .error e
  | none => .ok ()

def gone (t : Target) : ProcessError :=
  .changed (("PID " : Str) ++ toDec t.pid ++ (" no longer exists" : Str))

/-- The row's identity is still the PID's, and the operator owns it. -/
def checkIdentity (t : Target) (g : Guard) (now : Option Identity) : Except ProcessError Unit :=
  match now with
  | some id =>
    if id = t.identity then
      if g.ownUids.contains t.identity.uid then .ok ()
      else .error (.protected (("PID " : Str) ++ toDec t.pid ++ (" is owned by uid " : Str) ++
        toDec t.identity.uid ++ (", not the operator" : Str)))
    else .error (.changed (("PID " : Str) ++ toDec t.pid ++ (" changed since selection (start " : Str)
      ++ toDec t.identity.startTimeTicks ++ (" → " : Str) ++ toDec id.startTimeTicks ++
      (", uid " : Str) ++ toDec t.identity.uid ++ (" → " : Str) ++ toDec id.uid ++ (")" : Str)))
  | none => .error (gone t)

/-- Structural protection, then identity, then ownership, on the three files read. -/
def check (t : Target) (g : Guard) (leaderStatus stat status : Option Str) :
    Except ProcessError Unit := do
  checkLeader t g ((tgid leaderStatus).getD t.pid)
  checkOpened t
  checkIdentity t g (identity stat status)

theorem checkLeader_ok {t : Target} {g : Guard} {leader : Nat} :
    checkLeader t g leader = .ok () ↔
      leader = t.pid ∧ t.pid ≠ 1 ∧ t.pid ≠ g.selfPid ∧ t.pid ∉ g.runtimePids := by
  unfold checkLeader
  constructor
  · intro h
    split at h
    · cases h
    rename_i h1
    split at h
    · cases h
    rename_i hself
    split at h
    · cases h
    rename_i hrt
    split at h
    · cases h
    rename_i hpid
    rw [not_not] at hpid
    subst hpid
    exact ⟨rfl, h1, hself, by simpa using hrt⟩
  · rintro ⟨rfl, h1, hself, hrt⟩
    simp [h1, hself, hrt]

theorem checkOpened_ok {t : Target} : checkOpened t = .ok () ↔ t.openError = none := by
  unfold checkOpened
  cases t.openError <;> simp

theorem checkIdentity_ok {t : Target} {g : Guard} {now : Option Identity} :
    checkIdentity t g now = .ok () ↔ now = some t.identity ∧ t.identity.uid ∈ g.ownUids := by
  cases now with
  | none => simp [checkIdentity]
  | some id =>
    by_cases hid : id = t.identity
    · subst hid
      by_cases hu : t.identity.uid ∈ g.ownUids <;> simp [checkIdentity, hu]
    · simp [checkIdentity, hid]

theorem check_ok {t : Target} {g : Guard} {leaderStatus stat status : Option Str} :
    check t g leaderStatus stat status = .ok () ↔
      checkLeader t g ((tgid leaderStatus).getD t.pid) = .ok () ∧ checkOpened t = .ok () ∧
        checkIdentity t g (identity stat status) = .ok () := by
  unfold check
  cases checkLeader t g ((tgid leaderStatus).getD t.pid) with
  | error e => simp [bind, Except.bind]
  | ok u => cases checkOpened t <;> simp [bind, Except.bind]

/-! ## Sending -/

inductive Signal where
  | term
  | kill
  deriving DecidableEq

def Signal.name : Signal → Str
  | .term => "SIGTERM"
  | .kill => "SIGKILL"

def sendFailed (sig : Signal) (t : Target) (e : Str) : ProcessError :=
  .signal (sig.name ++ (" to " : Str) ++ toDec t.pid ++ (" failed: " : Str) ++ e)

/-- Where a signal goes: to the process of a pidfd, or to whatever has a PID. -/
inductive Route where
  | pidfd (process : Nat)
  | byPid (pid : Nat)
  deriving DecidableEq

/-- The route of `send`; `none` when there is no valid PID to send to. -/
def sendVia (t : Target) : Option Route :=
  match t.pidfd with
  | some fd => some (.pidfd fd)
  | none => if validPid t.pid then some (.byPid t.pid) else none

end Saltnitor.Process
