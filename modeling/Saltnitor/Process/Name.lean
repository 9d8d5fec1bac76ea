import Saltnitor.App.Inspector
import Saltnitor.Process.RuntimeTree

/-!
# Names that are no text

`identity` answers as if the process were gone where its name is no text. `Known` is what
the program relies on, and `known_iff` says for which names it holds.
-/

namespace Saltnitor.Process

open Rust

/-! ## Who asks for an identity -/

/-- An entry of sysinfo's table. -/
structure SysProcess where
  pid : Nat
  name : List UInt8
  memory : Nat
  cmd : List (List UInt8)
  isThread : Bool

def rowFromSysinfo (p : SysProcess) (id : Identity) : ProcessInfo :=
  let command : Str := [' '].intercalate (p.cmd.map fromUtf8Lossy)
  { pid := p.pid
    name := fromUtf8Lossy p.name
    memoryBytes := p.memory
    gpuMemoryBytes := none
    gpuMemoryReason := some App.notAGpuProcess
    command := if command = [] then none else some command
    startTimeTicks := id.startTimeTicks
    uid := id.uid }

/-- The rows of the process table: no thread has one, nor what has no identity. -/
def snapshotFromSysinfo (identity : Nat → Option Identity) (processes : List SysProcess) :
    List ProcessInfo :=
  (processes.filter fun p => !p.isThread).filterMap fun p =>
    (identity p.pid).map (rowFromSysinfo p)

theorem mem_snapshotFromSysinfo {identity : Nat → Option Identity} {processes : List SysProcess}
    {p : SysProcess} {id : Identity} (hp : p ∈ processes) (hthread : p.isThread = false)
    (hid : identity p.pid = some id) : rowFromSysinfo p id ∈ snapshotFromSysinfo identity processes := by
  refine List.mem_filterMap.mpr ⟨p, List.mem_filter.mpr ⟨hp, by rw [hthread]; rfl⟩, ?_⟩
  rw [hid, Option.map_some]

/-- What the structure forbids is not called gone. -/
theorem checkLeader_error {tg : Target} {g : Guard} {leader : Nat} {e : ProcessError}
    (h : checkLeader tg g leader = .error e) : ∃ reason, e = .protected reason := by
  unfold checkLeader at h
  split at h
  · cases h; exact ⟨_, rfl⟩
  · split at h
    · cases h; exact ⟨_, rfl⟩
    · split at h
      · cases h; exact ⟨_, rfl⟩
      · split at h
        · cases h; exact ⟨_, rfl⟩
        · cases h

theorem checkIdentity_ne_gone (tg : Target) (g : Guard) (id : Identity) :
    checkIdentity tg g (some id) ≠ .error (gone tg) := by
  intro h
  unfold checkIdentity gone at h
  dsimp only at h
  split at h
  · split at h
    · cases h
    · cases h
  · simp only [Except.error.injEq, ProcessError.changed.injEq, List.append_assoc,
      List.append_cancel_left_eq] at h
    revert h
    simp

theorem check_ne_gone {tg : Target} {g : Guard} {leaderStatus stat status : Option Str}
    {id : Identity} (hopen : tg.openError = none) (hid : identity stat status = some id) :
    check tg g leaderStatus stat status ≠ .error (gone tg) := by
  unfold check
  cases hl : checkLeader tg g ((tgid leaderStatus).getD tg.pid) with
  | error e =>
    obtain ⟨reason, rfl⟩ := checkLeader_error hl
    intro h
    cases h
  | ok u =>
    rw [checkOpened, hopen, hid]
    exact checkIdentity_ne_gone tg g id

namespace Kernel

/-- `identity(pid)`. -/
def identityNow (k : Kernel) (comm : Nat → List UInt8) (pid : Nat) : Option Identity :=
  identityOf (k.statBytes comm pid) (k.statusBytes comm pid)

/-- `check` on the files of the target's PID. -/
def checkNow (k : Kernel) (comm : Nat → List UInt8) (tg : Target) (g : Guard) :
    Except ProcessError Unit :=
  let stat := (k.statBytes comm tg.pid).bind fromUtf8
  let status := (k.statusBytes comm tg.pid).bind fromUtf8
  check tg g status stat status

/-- A poll of `terminate_guarded`'s wait reports the target as exited. -/
def reportsExited (k : Kernel) (comm : Nat → List UInt8) (tg : Target) : Bool :=
  decide (k.identityNow comm tg.pid ≠ some tg.identity)

/-- The task with this PID runs. -/
structure Runs (k : Kernel) (pid : Nat) (t : Task) : Prop where
  mem : t ∈ k.tasks
  pid_eq : t.pid = pid
  alive : ¬ t.isZombie

/-- A running process is known by its start time and its uid, and nothing reports it as gone. -/
structure Known (k : Kernel) (comm : Nat → List UInt8) (pid : Nat) : Prop where
  found : ∀ t, k.Runs pid t → k.identityNow comm pid = some ⟨t.startTimeTicks, t.uid⟩
  gone : k.identityNow comm pid = none → ∀ t ∈ k.tasks, t.pid = pid → t.isZombie
  listed : ∀ t, k.Runs pid t → ∀ processes, ∀ p ∈ processes, p.pid = pid → p.isThread = false →
    ∃ row ∈ snapshotFromSysinfo (k.identityNow comm) processes, row.pid = pid ∧
      row.identity = ⟨t.startTimeTicks, t.uid⟩
  checked : ∀ t, k.Runs pid t → ∀ tg g, tg.pid = pid → tg.openError = none →
    k.checkNow comm tg g ≠ .error (Process.gone tg)
  waited : ∀ t, k.Runs pid t → ∀ tg : Target, tg.pid = pid →
    tg.identity = ⟨t.startTimeTicks, t.uid⟩ → k.reportsExited comm tg = false

variable {k : Kernel} {comm : Nat → List UInt8} {pid : Nat} {t : Task}

theorem identityNow_eq (ht : t ∈ k.tasks) (hp : t.pid = pid) : k.identityNow comm pid =
    identityOf (some (t.statBytes (comm t.id))) (some (t.statusBytes (comm t.id))) := by
  rw [identityNow, statBytes, statusBytes, find_eq_some.mpr ⟨ht, hp⟩]
  rfl

theorem identityNow_eq_none (h : ∀ t ∈ k.tasks, t.pid = pid → t.isZombie) :
    k.identityNow comm pid = none := by
  cases hf : k.find pid with
  | none =>
    rw [identityNow, statBytes, statusBytes, hf]
    rfl
  | some t =>
    obtain ⟨ht, hp⟩ := find_eq_some.mp hf
    rw [identityNow_eq ht hp]
    by_cases hs : ∃ s, comm t.id = bytes s
    · obtain ⟨s, hs⟩ := hs
      rw [(t.identityOf_bytes _).1 s hs, if_pos (h t ht hp)]
    · exact (t.identityOf_bytes _).2 hs

/-- **A running process is known exactly when its name is UTF-8.** -/
theorem known_iff : k.Known comm pid ↔ ∀ t, k.Runs pid t → ∃ s, comm t.id = bytes s := by
  constructor
  · intro h t ht
    by_contra hs
    have hid := h.found t ht
    rw [identityNow_eq ht.mem ht.pid_eq, (t.identityOf_bytes _).2 hs] at hid
    cases hid
  · intro h
    have found : ∀ t, k.Runs pid t → k.identityNow comm pid = some ⟨t.startTimeTicks, t.uid⟩ := by
      intro t ht
      obtain ⟨s, hs⟩ := h t ht
      rw [identityNow_eq ht.mem ht.pid_eq, (t.identityOf_bytes _).1 s hs, if_neg ht.alive]
    refine ⟨found, ?_, ?_, ?_, ?_⟩
    · intro hnone t ht hp
      by_contra hz
      rw [found t ⟨ht, hp, hz⟩] at hnone
      cases hnone
    · rintro t ht processes p hp rfl hthread
      exact ⟨_, mem_snapshotFromSysinfo hp hthread (found t ht), rfl, rfl⟩
    · rintro t ht tg g rfl hopen
      exact check_ne_gone hopen (found t ht)
    · rintro t ht tg rfl hid
      rw [reportsExited, found t ht, hid]
      simp

end Kernel

example : routerTable.identityNow (fun _ => bytes ") Z 1\n\\é") 100 = some ⟨7, 1000⟩ := by
  decide +kernel

/-- The router runs under the name `FF`: it has no row, a signal to it is refused as if it were
gone, and a wait for it ends. -/
theorem not_known_byte :
    let comm : Nat → List UInt8 := fun _ => [0xFF]
    let tg := Target.select (rowOf routerTask) (.ok 0)
    let g := Guard.current routerOperator []
    routerTable.Runs 100 routerTask ∧ routerTable.identityNow comm 100 = none ∧
      snapshotFromSysinfo (routerTable.identityNow comm) [⟨100, [0xFF], 0, [], false⟩] = [] ∧
      routerTable.checkNow comm tg g = .error (gone tg) ∧
      routerTable.reportsExited comm tg = true ∧ ¬ routerTable.Known comm 100 := by
  have hruns : routerTable.Runs 100 routerTask := ⟨List.mem_singleton_self _, rfl, by decide⟩
  have hnone : routerTable.identityNow (fun _ => [0xFF]) 100 = none := by decide +kernel
  refine ⟨hruns, hnone, by decide +kernel, by decide +kernel, by decide +kernel, fun hk => ?_⟩
  have hid := hk.found routerTask hruns
  rw [hnone] at hid
  cases hid

end Saltnitor.Process
