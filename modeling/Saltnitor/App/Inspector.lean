import Mathlib.Logic.Function.Iterate
import Saltnitor.Process.Control

/-!
# The process inspectors

Each inspector shows rows of the process table and remembers the selection
twice: the list cursor, an index, and the PID it rests on. A poll replaces the
rows and moves the cursor to where the PID now sits; a key moves the cursor and
takes the PID from the row. `Pane.Agrees` says the two name the same row, and
every operation keeps it, whatever it does to a pane that does not agree.
-/

namespace Saltnitor.App

open Rust Process

/-! ## Rows -/

def notAGpuProcess : Str := "not a GPU process"

/-- Rows with a figure from nvidia-smi, or a reason there is none. -/
def gpuRows (all : List ProcessInfo) : List ProcessInfo :=
  all.filter fun p => p.gpuMemoryBytes.isSome || p.gpuMemoryReason.any (· != notAGpuProcess)

/-- Rows above 1 MiB, largest first. -/
def ramRows (all : List ProcessInfo) : List ProcessInfo :=
  (all.filter fun p => decide (1048576 < p.memoryBytes)).mergeSort
    fun p q => decide (q.memoryBytes ≤ p.memoryBytes)

/-! ## One pane -/

structure Pane where
  /-- `ListState::selected()`. -/
  cursor : Option Nat
  selectedPid : Option Nat
  rows : List ProcessInfo
  deriving DecidableEq

namespace Pane

def new : Pane := { cursor := none, selectedPid := none, rows := [] }

/-- Move the cursor to where the selected PID now sits; a PID that is gone clears the selection. -/
def refind (p : Pane) : Pane :=
  match p.selectedPid with
  | none => { p with cursor := none }
  | some pid =>
    match p.rows.findIdx? fun r => r.pid == pid with
    | some i => { p with cursor := some i }
    | none => { p with selectedPid := none, cursor := none }

def setRows (p : Pane) (rows : List ProcessInfo) : Pane := { p with rows := rows }.refind

/-- Where the cursor goes. -/
def next (p : Pane) (forward : Bool) : Nat :=
  let last := p.rows.length - 1
  match p.cursor with
  | some i =>
    if forward then if last ≤ i then 0 else i + 1
    else if i = 0 then last else i - 1
  | none => 0

def move (p : Pane) (forward : Bool) : Pane :=
  let next := p.next forward
  let pid := p.rows[next]?.map (·.pid)
  { p with selectedPid := pid, cursor := pid.map fun _ => next }

/-- The current row of the selected PID. -/
def selectedProc (p : Pane) : Option ProcessInfo := do
  let pid ← p.selectedPid
  p.rows.find? fun r => r.pid == pid

/-- The row under the cursor. -/
def cursorRow (p : Pane) : Option ProcessInfo := p.cursor.bind fun i => p.rows[i]?

/-! ## Cursor and PID agree -/

/-- Nothing is selected, or the cursor is on a row of the selected PID. -/
def Agrees (p : Pane) : Prop :=
  match p.cursor, p.selectedPid with
  | none, none => True
  | some i, some pid => ∃ r, p.rows[i]? = some r ∧ r.pid = pid
  | _, _ => False

variable {p : Pane} {i : Nat}

theorem agrees_new : new.Agrees := trivial

theorem agrees_refind (p : Pane) : p.refind.Agrees := by
  unfold refind
  cases hs : p.selectedPid with
  | none => simp only [Agrees]
  | some pid =>
    dsimp only
    cases hf : p.rows.findIdx? fun r => r.pid == pid with
    | none => simp only [Agrees]
    | some i =>
      obtain ⟨hi, hpid, -⟩ := List.findIdx?_eq_some_iff_getElem.mp hf
      simp only [Agrees]
      exact ⟨p.rows[i], List.getElem?_eq_getElem hi, by simpa using hpid⟩

theorem agrees_setRows (p : Pane) (rows : List ProcessInfo) : (p.setRows rows).Agrees :=
  agrees_refind _

theorem agrees_move (p : Pane) (forward : Bool) : (p.move forward).Agrees := by
  cases hr : p.rows[p.next forward]? with
  | none => simp only [Agrees, move, hr, Option.map_none]
  | some r =>
    simp only [Agrees, move, hr, Option.map_some]
    exact ⟨r, rfl, rfl⟩

@[simp] theorem rows_move (p : Pane) (forward : Bool) : (p.move forward).rows = p.rows := rfl

@[simp] theorem rows_refind (p : Pane) : p.refind.rows = p.rows := by
  unfold refind
  split
  · rfl
  · split <;> rfl

@[simp] theorem rows_setRows (p : Pane) (rows : List ProcessInfo) : (p.setRows rows).rows = rows :=
  rows_refind _

/-- The cursor is in range, and the selection is the row under it. -/
theorem Agrees.of_cursor (h : p.Agrees) (hc : p.cursor = some i) :
    i < p.rows.length ∧ p.selectedPid = p.rows[i]?.map (·.pid) := by
  simp only [Agrees, hc] at h
  split at h
  · rename_i heq _
    cases heq
  · rename_i i' pid heq hs
    cases heq
    obtain ⟨r, hr, rfl⟩ := h
    exact ⟨(List.getElem?_eq_some_iff.mp hr).1, by rw [hs, hr]; rfl⟩
  · exact h.elim

theorem selectedPid_setRows (p : Pane) (rows : List ProcessInfo) :
    (p.setRows rows).selectedPid = p.selectedPid ∨
      (p.setRows rows).selectedPid = none ∧ (p.setRows rows).cursor = none := by
  simp only [setRows, refind]
  split
  · exact .inl rfl
  · split
    · exact .inl rfl
    · exact .inr ⟨rfl, rfl⟩

/-! ## The cursor goes round -/

theorem move_of_lt {forward : Bool} (h : p.next forward < p.rows.length) :
    p.move forward =
      { p with selectedPid := p.rows[p.next forward]?.map (·.pid)
               cursor := some (p.next forward) } := by
  simp only [move, List.getElem?_eq_getElem h, Option.map_some]

theorem next_down (hc : p.cursor = some i) (hi : i < p.rows.length) :
    p.next true = (i + 1) % p.rows.length := by
  simp only [next, hc, if_true]
  split
  · rw [show i + 1 = p.rows.length by omega, Nat.mod_self]
  · rw [Nat.mod_eq_of_lt (by omega)]

theorem next_up (hc : p.cursor = some i) (hi : i < p.rows.length) :
    p.next false = (i + (p.rows.length - 1)) % p.rows.length := by
  simp only [next, hc, Bool.false_eq_true, if_false]
  split
  · rename_i h0
    rw [h0, Nat.zero_add, Nat.mod_eq_of_lt (by omega)]
  · rw [show i + (p.rows.length - 1) = i - 1 + p.rows.length by omega, Nat.add_mod_right,
      Nat.mod_eq_of_lt (by omega)]

/-- Places the cursor goes on in one move. -/
def stride (p : Pane) (forward : Bool) : Nat := if forward then 1 else p.rows.length - 1

theorem cursor_move (forward : Bool) (hc : p.cursor = some i) (hi : i < p.rows.length) :
    (p.move forward).cursor = some ((i + p.stride forward) % p.rows.length) := by
  have hn : p.next forward = (i + p.stride forward) % p.rows.length := by
    cases forward with
    | true => exact next_down hc hi
    | false => exact next_up hc hi
  rw [move_of_lt (by rw [hn]; exact Nat.mod_lt _ (by omega)), hn]

theorem cursor_move_of_none (forward : Bool) (hc : p.cursor = none) (hne : p.rows ≠ []) :
    (p.move forward).cursor = some 0 := by
  have hn : p.next forward = 0 := by simp only [next, hc]
  rw [move_of_lt (by rw [hn]; exact List.length_pos_iff.mpr hne), hn]

theorem rows_iterate (forward : Bool) (n : Nat) (p : Pane) :
    ((fun p => p.move forward)^[n] p).rows = p.rows := by
  induction n generalizing p with
  | zero => rfl
  | succ n ih => rw [Function.iterate_succ_apply, ih, rows_move]

/-- The rows are visited cyclically. -/
theorem cursor_iterate (forward : Bool) (hc : p.cursor = some i) (hi : i < p.rows.length)
    (n : Nat) :
    ((fun p => p.move forward)^[n] p).cursor =
      some ((i + n * p.stride forward) % p.rows.length) := by
  induction n with
  | zero => rw [Function.iterate_zero_apply, hc, Nat.zero_mul, Nat.add_zero, Nat.mod_eq_of_lt hi]
  | succ n ih =>
    have hrows := rows_iterate forward n p
    have hlt : (i + n * p.stride forward) % p.rows.length < p.rows.length :=
      Nat.mod_lt _ (by omega)
    have hstride : ((fun p => p.move forward)^[n] p).stride forward = p.stride forward := by
      rw [stride, hrows, stride]
    rw [Function.iterate_succ_apply', cursor_move forward ih (by rw [hrows]; exact hlt), hstride,
      hrows, Nat.mod_add_mod, Nat.succ_mul, Nat.add_assoc]

theorem move_move (h : p.Agrees) (hc : p.cursor = some i) (forward : Bool) :
    (p.move (!forward)).move forward = p := by
  obtain ⟨hi, hs⟩ := h.of_cursor hc
  have hlt : ∀ k, k % p.rows.length < p.rows.length := fun k => Nat.mod_lt _ (by omega)
  have h1 := cursor_move (!forward) hc hi
  have h2 := cursor_move (p := p.move (!forward)) forward h1 (hlt _)
  have hback : ((i + p.stride (!forward)) % p.rows.length + (p.move (!forward)).stride forward) %
      p.rows.length = i := by
    rw [Nat.mod_add_mod, Nat.add_assoc, show p.stride (!forward) + (p.move (!forward)).stride forward
      = p.rows.length by cases forward <;> simp [stride] <;> omega, Nat.add_mod_right,
      Nat.mod_eq_of_lt hi]
  rw [rows_move, hback] at h2
  have hs' := ((agrees_move _ forward).of_cursor h2).2
  rw [rows_move, rows_move, ← hs] at hs'
  cases p with
  | mk cursor selectedPid rows =>
    simp only [move, Pane.mk.injEq, and_true] at h2 hs' ⊢
    exact ⟨h2.trans hc.symm, hs'⟩

/-! ## The row that is acted on -/

theorem selectedProc_pid {info : ProcessInfo} (h : p.selectedProc = some info) :
    p.selectedPid = some info.pid ∧ info ∈ p.rows := by
  simp only [selectedProc, Option.bind_eq_bind, Option.bind_eq_some_iff] at h
  obtain ⟨pid, hs, hf⟩ := h
  have hpid := List.find?_some hf
  rw [beq_iff_eq] at hpid
  exact ⟨hpid ▸ hs, List.mem_of_find?_eq_some hf⟩

theorem Agrees.selectedProc {pid : Nat} (h : p.Agrees) (hs : p.selectedPid = some pid) :
    ∃ r, p.selectedProc = some r ∧ r.pid = pid := by
  unfold Agrees at h
  split at h
  · rename_i heq
    cases hs.symm.trans heq
  · rename_i i pid' _ heq
    cases hs.symm.trans heq
    obtain ⟨r, hr, hpid⟩ := h
    have hsome : (p.rows.find? fun r => r.pid == pid).isSome :=
      List.find?_isSome.mpr ⟨r, List.mem_of_getElem? hr, by simpa using hpid⟩
    obtain ⟨r', hr'⟩ := Option.isSome_iff_exists.mp hsome
    refine ⟨r', ?_, by simpa using List.find?_some hr'⟩
    rw [Pane.selectedProc, hs]
    exact hr'
  · exact h.elim

theorem selectedProc_setRows {rows : List ProcessInfo} {info : ProcessInfo}
    (h : (p.setRows rows).selectedProc = some info) :
    p.selectedPid = some info.pid ∧ (rows.find? fun r => r.pid == info.pid) = some info := by
  have hpid := (selectedProc_pid h).1
  have hs : p.selectedPid = some info.pid := by
    rcases selectedPid_setRows p rows with hsel | ⟨hsel, -⟩
    · exact hsel.symm.trans hpid
    · cases hpid.symm.trans hsel
  refine ⟨hs, ?_⟩
  rw [selectedProc, hpid, rows_setRows] at h
  exact h

theorem selectedProc_move {forward : Bool} {info : ProcessInfo}
    (h : (p.move forward).selectedProc = some info) :
    ∃ r, (p.move forward).cursorRow = some r ∧ p.rows[p.next forward]? = some r ∧
      (p.rows.find? fun r' => r'.pid == r.pid) = some info := by
  cases hr : p.rows[p.next forward]? with
  | none => simp [selectedProc, move, hr] at h
  | some r =>
    simp only [selectedProc, move, hr, Option.map_some] at h
    exact ⟨r, by simp only [cursorRow, move, hr, Option.map_some, Option.bind_some], rfl, h⟩

end Pane

/-! ## Both panes -/

inductive ProcPane where
  | gpu
  | sys
  deriving DecidableEq

def ProcPane.other : ProcPane → ProcPane
  | gpu => sys
  | sys => gpu

instance {P : ProcPane → Prop} [Decidable (P .gpu)] [Decidable (P .sys)] :
    Decidable (∀ pane, P pane) :=
  decidable_of_iff (P .gpu ∧ P .sys) ⟨fun h pane => pane.rec h.1 h.2, fun h => ⟨h _, h _⟩⟩

structure Inspectors where
  gpu : Pane
  sys : Pane
  /-- uid and user name. -/
  users : List (Nat × Str)
  deriving DecidableEq

namespace Inspectors

def new : Inspectors := { gpu := .new, sys := .new, users := [] }

def pane (s : Inspectors) : ProcPane → Pane
  | .gpu => s.gpu
  | .sys => s.sys

/-- A poll without user names keeps the old ones. -/
def setProcesses (s : Inspectors) (processes : List ProcessInfo) (users : List (Nat × Str)) :
    Inspectors where
  gpu := s.gpu.setRows (gpuRows processes)
  sys := s.sys.setRows (ramRows processes)
  users := if users.isEmpty then s.users else users

def moveProcCursor (s : Inspectors) (pane : ProcPane) (forward : Bool) : Inspectors :=
  match pane with
  | .gpu => { s with gpu := s.gpu.move forward }
  | .sys => { s with sys := s.sys.move forward }

def selectedProc (s : Inspectors) (pane : ProcPane) : Option ProcessInfo :=
  (s.pane pane).selectedProc

/-- The rows a pane shows. -/
def rowsOf : ProcPane → List ProcessInfo → List ProcessInfo
  | .gpu => gpuRows
  | .sys => ramRows

@[simp] theorem pane_setProcesses (s : Inspectors) (processes : List ProcessInfo)
    (users : List (Nat × Str)) (pane : ProcPane) :
    (s.setProcesses processes users).pane pane =
      (s.pane pane).setRows (rowsOf pane processes) := by
  cases pane <;> rfl

@[simp] theorem pane_moveProcCursor (s : Inspectors) (pane : ProcPane) (forward : Bool) :
    (s.moveProcCursor pane forward).pane pane = (s.pane pane).move forward := by
  cases pane <;> rfl

@[simp] theorem other_moveProcCursor (s : Inspectors) (pane : ProcPane) (forward : Bool) :
    (s.moveProcCursor pane forward).pane pane.other = s.pane pane.other := by
  cases pane <;> rfl

theorem users_moveProcCursor (s : Inspectors) (pane : ProcPane) (forward : Bool) :
    (s.moveProcCursor pane forward).users = s.users := by
  cases pane <;> rfl

theorem ext_pane {s t : Inspectors} (pane : ProcPane) (h : s.pane pane = t.pane pane)
    (ho : s.pane pane.other = t.pane pane.other) (hu : s.users = t.users) : s = t := by
  cases s; cases t; cases pane <;> simp_all [Inspectors.pane, ProcPane.other]

theorem pane_iterate (pane : ProcPane) (forward : Bool) (n : Nat) (s : Inspectors) :
    ((fun s => s.moveProcCursor pane forward)^[n] s).pane pane =
      (fun p => p.move forward)^[n] (s.pane pane) := by
  induction n generalizing s with
  | zero => rfl
  | succ n ih =>
    rw [Function.iterate_succ_apply, ih, Function.iterate_succ_apply, pane_moveProcCursor]

/-- What the rest of the program calls. -/
inductive Call where
  | setProcesses (processes : List ProcessInfo) (users : List (Nat × Str))
  | moveProcCursor (pane : ProcPane) (forward : Bool)

def call (s : Inspectors) : Call → Inspectors
  | .setProcesses processes users => s.setProcesses processes users
  | .moveProcCursor pane forward => s.moveProcCursor pane forward

/-- Both panes agree. -/
def Agree (s : Inspectors) : Prop := ∀ pane, (s.pane pane).Agrees

theorem agree_new : new.Agree := by
  intro pane
  cases pane <;> exact Pane.agrees_new

theorem agree_setProcesses (s : Inspectors) (processes : List ProcessInfo)
    (users : List (Nat × Str)) : (s.setProcesses processes users).Agree := by
  intro pane
  rw [pane_setProcesses]
  exact Pane.agrees_setRows ..

theorem agree_moveProcCursor {s : Inspectors} (h : s.Agree) (pane : ProcPane) (forward : Bool) :
    (s.moveProcCursor pane forward).Agree := by
  intro pane'
  by_cases he : pane' = pane
  · rw [he, pane_moveProcCursor]
    exact Pane.agrees_move ..
  · obtain rfl : pane' = pane.other := by cases pane <;> cases pane' <;> simp_all [ProcPane.other]
    rw [other_moveProcCursor]
    exact h _

theorem agree_call {s : Inspectors} (h : s.Agree) (c : Call) : (s.call c).Agree := by
  cases c with
  | setProcesses processes users => exact agree_setProcesses s processes users
  | moveProcCursor pane forward => exact agree_moveProcCursor h pane forward

theorem agree_foldl {s : Inspectors} (h : s.Agree) (calls : List Call) :
    (calls.foldl call s).Agree := by
  induction calls generalizing s with
  | nil => exact h
  | cons c calls ih => exact ih (agree_call h c)

/-- **Cursor and PID stay together.** After any calls each pane agrees; moving visits its rows
cyclically, can be undone and touches nothing else; a poll keeps the selected PID or clears it. -/
theorem inspectors_agree (calls : List Call) (pane : ProcPane) :
    let s := calls.foldl call new
    (s.pane pane).Agrees ∧
    (∀ forward, (s.pane pane).rows ≠ [] → (s.pane pane).cursor = none →
      ((s.moveProcCursor pane forward).pane pane).cursor = some 0) ∧
    (∀ forward i, (s.pane pane).cursor = some i →
      (∀ n, (((fun s => s.moveProcCursor pane forward)^[n] s).pane pane).cursor =
        some ((i + n * if forward then 1 else (s.pane pane).rows.length - 1) %
          (s.pane pane).rows.length)) ∧
      (s.moveProcCursor pane !forward).moveProcCursor pane forward = s) ∧
    (∀ forward, (s.moveProcCursor pane forward).pane pane.other = s.pane pane.other ∧
      (s.moveProcCursor pane forward).users = s.users) ∧
    ∀ processes users,
      ((s.setProcesses processes users).pane pane).selectedPid = (s.pane pane).selectedPid ∨
      ((s.setProcesses processes users).pane pane).selectedPid = none ∧
        ((s.setProcesses processes users).pane pane).cursor = none := by
  intro s
  have h : (s.pane pane).Agrees := agree_foldl agree_new calls pane
  refine ⟨h, fun forward hne hc => ?_, fun forward i hc => ⟨fun n => ?_, ?_⟩, fun forward =>
    ⟨other_moveProcCursor .., users_moveProcCursor ..⟩, fun processes users => ?_⟩
  · rw [pane_moveProcCursor]
    exact Pane.cursor_move_of_none forward hc hne
  · rw [pane_iterate]
    exact Pane.cursor_iterate forward hc (h.of_cursor hc).1 n
  · refine ext_pane pane ?_ ?_ ?_
    · rw [pane_moveProcCursor, pane_moveProcCursor]
      exact Pane.move_move h hc forward
    · rw [other_moveProcCursor, other_moveProcCursor]
    · rw [users_moveProcCursor, users_moveProcCursor]
  · rw [pane_setProcesses]
    exact Pane.selectedPid_setRows ..

end Inspectors

end Saltnitor.App
