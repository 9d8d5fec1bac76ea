import Saltnitor.Process.RuntimeTree

/-!
# The scan of `/proc`

`runtime_tree` sees names in a directory and texts of status files; what they
are is not assumed. Links to a parent may loop, lead to a process that is gone or to the process
itself, and the root need not be listed. On any such `/proc` that stays as it
is the work list ends (`tree_spec`). `runtimeTree_eq` says that the scan of a
process table is this one.
-/

namespace Saltnitor.Process

open Rust

/-- What the scan reads of `/proc`. -/
structure ProcFs where
  /-- The names in the directory, when it can be listed. -/
  names : Option (List (List UInt8))
  /-- `/proc/<pid>/status`, when it can be read. -/
  status : Nat → Option (List UInt8)

namespace ProcFs

/-- The names that are PIDs. -/
def pids (fs : ProcFs) : List Nat :=
  (fs.names.getD []).filterMap fun name => parseUnsigned 32 (fromUtf8Lossy name)

def ppid (fs : ProcFs) (pid : Nat) : Option Nat :=
  ((fs.status pid).bind fromUtf8).bind parsePpid

def children (fs : ProcFs) (parent : Nat) : List Nat :=
  fs.pids.filter fun pid => fs.ppid pid = some parent

/-- The loop of `runtime_tree`, with as much fuel as it can use. -/
def tree (fs : ProcFs) (root : Nat) : List Nat :=
  (Worklist.loop fs.children (fs.pids.length + 1) [root] 0).getD []

def runtimeTree (fs : ProcFs) (out : Option QueryOutput) : List Nat :=
  match queryRoot out with
  | none => []
  | some root => fs.tree root

/-- The listed process `child` names `parent` as its parent. -/
def Link (fs : ProcFs) (child parent : Nat) : Prop :=
  child ∈ fs.pids ∧ fs.ppid child = some parent

variable {fs : ProcFs} {a b : Nat}

theorem mem_children : b ∈ fs.children a ↔ fs.Link b a := by
  rw [children, List.mem_filter, decide_eq_true_iff, Link]

theorem children_subset (fs : ProcFs) (a : Nat) : fs.children a ⊆ fs.pids :=
  fun _ hb => List.mem_of_mem_filter hb

/-- **The work list ends, whatever the links are, and holds the root and what is linked to it.** -/
theorem tree_spec (fs : ProcFs) (root : Nat) :
    (∀ fuel, fs.pids.length < fuel →
      Worklist.loop fs.children fuel [root] 0 = some (fs.tree root)) ∧
    (fs.tree root).Nodup ∧
    ∀ pid, pid ∈ fs.tree root ↔ Relation.ReflTransGen fs.Link pid root := by
  obtain ⟨t, ht, hnodup, hmem⟩ := Worklist.loop_root (children_subset fs) (le_refl _) root
  have htree : fs.tree root = t := by rw [tree, ht]; rfl
  rw [htree]
  refine ⟨fun fuel hfuel => Worklist.loop_mono ht hfuel, hnodup, fun pid => ?_⟩
  have hswap : (fun a b => b ∈ fs.children a) = Function.swap fs.Link := by
    funext a b
    exact propext mem_children
  rw [hmem, hswap, Relation.reflTransGen_swap]

/-- A process that is its own parent, one whose parent is gone, and a root that is not listed. -/
example :
    let fs : ProcFs :=
      { names := some (["3", "self", "7", "+5", "8"].map fun s : String => bytes s)
        status := fun pid => [(3, "PPid:\t3\n"), (7, "PPid:\t1\n"), (5, "PPid:\t7\n"),
          (8, "PPid:\t2\n")].lookup pid |>.map fun s : String => bytes s }
    fs.tree 1 = [1, 7, 5] ∧ fs.tree 3 = [3] := by
  decide +kernel

end ProcFs

/-- `/proc` shows the processes of `k`, under the names they gave themselves, as far as it is open. -/
structure Kernel.Shows (k : Kernel) (comm : Nat → List UInt8) (acc : Access) (fs : ProcFs) : Prop where
  pids : fs.pids = if acc.lists then k.listing else []
  status : ∀ pid, fs.status pid = if acc.opens pid then k.statusBytes comm pid else none

theorem runtimeTree_eq {k : Kernel} {comm : Nat → List UInt8} {acc : Access} {fs : ProcFs}
    (h : k.Shows comm acc fs) (out : Option QueryOutput) :
    runtimeTree (k.files comm acc) out = fs.runtimeTree out := by
  have hlisting : (k.files comm acc).listing = fs.pids := h.pids.symm
  have hchildren : childPids (k.files comm acc) = fs.children := by
    funext parent
    have hppid (pid : Nat) : fs.ppid pid = ((k.files comm acc).status pid).bind parsePpid := by
      rw [ProcFs.ppid, h.status, Kernel.files]
      dsimp only
      split <;> rfl
    simp only [childPids, ProcFs.children, hlisting, hppid]
  rw [runtimeTree, ProcFs.runtimeTree, hlisting, hchildren]
  rfl

end Saltnitor.Process
