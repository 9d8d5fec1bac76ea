import Saltnitor.Rust.Utf8
import Saltnitor.Tuner.Upsert

/-!
# The apply task

Applying the tuner reads the preset file, computes the upsert and writes the file
back, in a task of its own. `Job.apply` is one task with whatever can fail on the way:
`apply_atomic_iff` says when an error leaves the file as it was.
-/

namespace Saltnitor.Tuner

open Rust

/-! ## One task -/

/-- What the task is started with. -/
structure Job where
  routerIni : Str
  section_ : Str
  kv : List (Str × Str)
  serviceName : Str

inductive Report where
  | updated
  | cannotWrite
  | notFound
  | cannotRead
  deriving DecidableEq

def Report.isError : Report → Bool
  | .updated => false
  | _ => true

def Job.line (j : Job) : Report → Str
  | .updated => (">>> TUNER: [" : Str) ++ j.section_ ++ ("] updated. Restarting router..." : Str)
  | .cannotWrite => (">>> TUNER ERROR: cannot write " : Str) ++ j.routerIni
  | .notFound =>
    (">>> TUNER ERROR: section [" : Str) ++ j.section_ ++ ("] not found in router.ini" : Str)
  | .cannotRead => (">>> TUNER ERROR: cannot read " : Str) ++ j.routerIni

def Job.update (j : Job) (content : Str) : Option Str := upsertIniSection content j.section_ j.kv

/-- How a write can fail: before the file is truncated, or after so many bytes. -/
inductive WriteFault where
  | open_
  | after (n : Nat)

structure Faults where
  read : Bool
  write : Option WriteFault

/-- What a task leaves behind. -/
structure Done where
  file : List UInt8
  log : List Str
  report : Report
  /-- The unit it restarts. -/
  restart : Option Str

/-- The task; the log line is its report, and only an updated file is followed by a restart. -/
def Job.done (j : Job) (file : List UInt8) (report : Report) : Done where
  file := file
  log := [j.line report]
  report := report
  restart := if report = .updated then some j.serviceName else none

def Job.apply (j : Job) (file : List UInt8) (f : Faults) : Done :=
  match if f.read then none else fromUtf8 file with
  | some content =>
    match j.update content with
    | some updated =>
      match f.write with
      | none => j.done (bytes updated) .updated
      | some .open_ => j.done file .cannotWrite
      | some (.after n) => j.done ((bytes updated).take n) .cannotWrite
    | none => j.done file .notFound
  | none => j.done file .cannotRead

/-- The file with the update in it. -/
def Updated (j : Job) (file file' : List UInt8) : Prop :=
  ∃ content updated, fromUtf8 file = some content ∧ j.update content = some updated ∧
    file' = bytes updated

theorem apply_eq_updated {j : Job} {file file' : List UInt8} :
    j.apply file ⟨false, none⟩ = j.done file' .updated ↔ Updated j file file' := by
  have hfile {a b : List UInt8} {r : Report} (h : j.done a r = j.done b .updated) :
      a = b ∧ r = .updated := ⟨congrArg Done.file h, congrArg Done.report h⟩
  constructor
  · intro h
    unfold Job.apply at h
    split at h
    · rename_i content hc
      split at h
      · rename_i updated hu
        obtain ⟨rfl, -⟩ := hfile h
        exact ⟨content, updated, by simpa using hc, hu, rfl⟩
      · cases (hfile h).2
    · cases (hfile h).2
  · rintro ⟨content, updated, hc, hu, rfl⟩
    simp only [Job.apply, hc, hu, Bool.false_eq_true, if_false]

/-- An error changes nothing, and only a complete update is followed by a restart. -/
structure Atomic (j : Job) (file : List UInt8) (d : Done) : Prop where
  error : d.report.isError = true → d.file = file
  restart : d.restart ≠ none → Updated j file d.file

theorem atomic_of_same (j : Job) (file : List UInt8) {r : Report} (h : r ≠ .updated) :
    Atomic j file (j.done file r) :=
  ⟨fun _ => rfl, fun hr => absurd (if_neg h) hr⟩

theorem apply_cases (j : Job) (file : List UInt8) (f : Faults) :
    (∃ r, r ≠ .updated ∧ j.apply file f = j.done file r ∧
      ∀ n content updated, f.read = false → f.write = some (.after n) →
        fromUtf8 file = some content → j.update content ≠ some updated) ∨
    (∃ file', Updated j file file' ∧ f.write = none ∧ j.apply file f = j.done file' .updated) ∨
    ∃ n content updated, f.read = false ∧ f.write = some (.after n) ∧
      fromUtf8 file = some content ∧ j.update content = some updated ∧
      j.apply file f = j.done ((bytes updated).take n) .cannotWrite := by
  unfold Job.apply
  split
  · rename_i content hc
    obtain ⟨hr, hc⟩ : f.read = false ∧ fromUtf8 file = some content := by simpa using hc
    split
    · rename_i updated hu
      split
      · rename_i hw
        exact .inr (.inl ⟨_, ⟨content, updated, hc, hu, rfl⟩, hw, rfl⟩)
      · rename_i hw
        refine .inl ⟨.cannotWrite, nofun, rfl, fun n _ _ _ hn => ?_⟩
        rw [hw] at hn
        cases hn
      · rename_i n hw
        exact .inr (.inr ⟨n, content, updated, hr, hw, hc, hu, rfl⟩)
    · rename_i hu
      refine .inl ⟨.notFound, nofun, rfl, fun n content' _ _ _ hc' => ?_⟩
      cases hc.symm.trans hc'
      simp [hu]
  · rename_i hc
    refine .inl ⟨.cannotRead, nofun, rfl, fun n content _ hr _ hc' => ?_⟩
    simp [hr, hc'] at hc

/-- **An apply is atomic if and only if its write does not stop once the file is truncated, or had
written just what was there.** -/
theorem apply_atomic_iff (j : Job) (file : List UInt8) (f : Faults) :
    Atomic j file (j.apply file f) ↔
      ∀ n content updated, f.read = false → f.write = some (.after n) →
        fromUtf8 file = some content → j.update content = some updated →
        (bytes updated).take n = file := by
  rcases apply_cases j file f with ⟨r, hr, ha, hno⟩ | ⟨file', hup, hw, ha⟩ |
    ⟨n, content, updated, hr, hw, hc, hu, ha⟩
  · rw [ha]
    exact iff_of_true (atomic_of_same j file hr)
      fun n content updated h h' h'' hu => absurd hu (hno n content updated h h' h'')
  · rw [ha]
    refine iff_of_true ⟨nofun, fun _ => hup⟩ fun n _ _ _ hn => ?_
    rw [hw] at hn
    cases hn
  · rw [ha]
    constructor
    · intro h m content' updated' _ hm hc' hu'
      cases hw.symm.trans hm
      cases hc.symm.trans hc'
      cases hu.symm.trans hu'
      exact h.error rfl
    · exact fun h => ⟨fun _ => h n content updated hr hw hc hu, fun hn => absurd rfl hn⟩

/-- A write that stops at once leaves nothing of the file. -/
theorem not_atomic_truncated :
    let j : Job := ⟨"router.ini", "A", [("k", "2")], "llama-router"⟩
    let file := bytes "[A]\nk = 1\n"
    (j.apply file ⟨false, some (.after 0)⟩).file = [] ∧
      ¬ Atomic j file (j.apply file ⟨false, some (.after 0)⟩) := by
  intro j file
  have hfile : (j.apply file ⟨false, some (.after 0)⟩).file = [] := by decide +kernel
  have herror : (j.apply file ⟨false, some (.after 0)⟩).report.isError = true := by decide +kernel
  have hne : file ≠ [] := by decide +kernel
  exact ⟨hfile, fun h => hne ((h.error herror).symm.trans hfile)⟩

end Saltnitor.Tuner
