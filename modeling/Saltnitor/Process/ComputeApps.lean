import Saltnitor.Process.Table

/-!
# What the GPU driver reports

`parseComputeApps` reads the lines `nvidia-smi` prints for the processes on the
GPU. They are cut at every comma, and the memory is multiplied without a look at
the range. `appsRead_iff` says which lists of processes are read back.
-/

namespace Saltnitor.Process

open Rust

/-! ## The reader -/

section

variable (checked : Bool) (debug : Str → Str)

/-- `a * b` in 64 bits: a build with overflow checks panics (`none`), one without them wraps. -/
def mulU64 (a b : Nat) : Option Nat :=
  if a * b < 2 ^ 64 then some (a * b) else if checked then none else some (a * b % 2 ^ 64)

def memoryReason (raw : Str) : Str :=
  ("nvidia-smi reported " : Str) ++ debug raw ++ (" for used_memory" : Str)

/-- `used_memory_bytes` and `reason`. -/
def readMemory (raw : Str) : Option (Option Nat × Option Str) :=
  match parseUnsigned 64 raw with
  | some mib => do
    let kib ← mulU64 checked mib 1024
    let bytes ← mulU64 checked kib 1024
    some (some bytes, none)
  | none => some (none, some (memoryReason debug raw))

/-- One line: `some none` where it is skipped. -/
def parseComputeApp (line : Str) : Option (Option GpuApp) :=
  match (line.splitOn ',').map trim with
  | pid :: name :: rest =>
    match parseUnsigned 32 pid with
    | some pid => (readMemory checked debug (rest.head?.getD [])).map fun (used, reason) =>
        some { pid, name, usedMemoryBytes := used, reason }
    | none => some none
  | _ => some none

def parseComputeLines (ls : List Str) : Option (List GpuApp) :=
  (ls.mapM (parseComputeApp checked debug)).map (·.filterMap id)

def parseComputeApps (csv : Str) : Option (List GpuApp) := parseComputeLines checked debug (lines csv)

end

/-! ## What is printed -/

/-- The third field: a number of MiB, or a text that is no such number. -/
inductive UsedMemory where
  | mib (n : Nat) (fits : n < 2 ^ 64)
  | text (t : Str) (noNumber : parseUnsigned 64 (trim t) = none)

def UsedMemory.shown : UsedMemory → Str
  | .mib n _ => toDec n
  | .text t _ => t

structure ComputeApp where
  pid : Nat
  name : Str
  memory : UsedMemory
  pid_lt : pid < 2 ^ 32
  oneLine : '\n' ∉ name

namespace ComputeApp

/-- `pid, name, memory` -/
def shown (app : ComputeApp) : Str :=
  toDec app.pid ++ ',' :: ' ' :: app.name ++ ',' :: ' ' :: app.memory.shown

/-- `--format=csv,noheader,nounits` -/
def render (apps : List ComputeApp) : Str := apps.flatMap fun app => app.shown ++ ['\n']

/-- What is to be read of it. -/
def entry (debug : Str → Str) (app : ComputeApp) : GpuApp where
  pid := app.pid
  name := trim app.name
  usedMemoryBytes :=
    match app.memory with
    | .mib n _ => if n * 2 ^ 20 < 2 ^ 64 then some (n * 2 ^ 20) else none
    | .text _ _ => none
  reason :=
    match app.memory with
    | .mib n _ => if n * 2 ^ 20 < 2 ^ 64 then none else some (memoryReason debug (toDec n))
    | .text t _ => some (memoryReason debug (trim t))

/-- No comma in the name, a memory that fits in 64 bits; in a text that stands in its place no comma
and no line break, blanks at its end apart. -/
def Plain (app : ComputeApp) : Prop :=
  ',' ∉ app.name ∧
    match app.memory with
    | .mib n _ => n < 2 ^ 44
    | .text t _ => ',' ∉ t ∧ '\n' ∉ t.rdropWhile isWhitespace

instance : (app : ComputeApp) → Decidable app.Plain
  | ⟨_, _, .mib .., _, _⟩ => inferInstanceAs (Decidable (_ ∧ _))
  | ⟨_, _, .text .., _, _⟩ => inferInstanceAs (Decidable (_ ∧ _ ∧ _))

end ComputeApp

/-! ## The memory field -/

/-- What the reader takes for the field: up to the end of its line, then to a comma. -/
def firstField (t : Str) : Str := (chompCr (t.takeWhile (· != '\n'))).takeWhile (· != ',')

theorem firstField_prefix (t : Str) : firstField t <+: t :=
  (List.takeWhile_prefix _).trans ((prefix_chompCr _).trans (List.takeWhile_prefix _))

theorem not_mem_firstField (t : Str) : ',' ∉ firstField t ∧ '\n' ∉ firstField t := by
  refine ⟨fun h => by simpa using List.mem_takeWhile_imp h, fun h => ?_⟩
  have := (prefix_chompCr _).subset ((List.takeWhile_prefix _).subset h)
  simpa using List.mem_takeWhile_imp this

theorem blank_behind {t : Str} (h : '\n' ∉ t.rdropWhile isWhitespace) :
    ∀ c ∈ t.dropWhile (· != '\n'), isWhitespace c = true := by
  intro c hc
  by_contra hblank
  cases hd : t.dropWhile (· != '\n') with
  | nil => rw [hd] at hc; cases hc
  | cons d r =>
    have hd' : d = '\n' := by
      have h := List.head_dropWhile_not (p := (· != '\n')) (l := t)
        (by rw [hd]; exact List.cons_ne_nil _ _)
      simpa [hd] using h
    subst hd'
    have hr : c ∈ r := by
      rw [hd] at hc
      refine (List.mem_cons.mp hc).resolve_left fun he => hblank ?_
      rw [he]
      decide
    rw [← List.takeWhile_append_dropWhile (p := (· != '\n')) (l := t), hd] at h
    exact h (mem_rdropWhile hr (Bool.eq_false_of_not_eq_true hblank))

/-- It is the whole field exactly when there is no comma and no line break in it, blanks at the end
apart. -/
theorem trim_firstField_iff (t : Str) :
    trim (firstField t) = trim t ↔ ',' ∉ t ∧ '\n' ∉ t.rdropWhile isWhitespace := by
  constructor
  · intro h
    obtain ⟨w, hw⟩ := firstField_prefix t
    have hblank : ∀ c ∈ w, isWhitespace c = true := by
      rw [← trim_eq_trim_append (s := firstField t), hw]
      exact h
    obtain ⟨hcomma, hbreak⟩ := not_mem_firstField t
    rw [← hw]
    refine ⟨fun hm => ?_, fun hm => ?_⟩
    · have := hblank ',' ((List.mem_append.mp hm).resolve_left hcomma)
      exact absurd this (by decide)
    · rw [rdropWhile_append_blank hblank] at hm
      exact hbreak ((List.rdropWhile_prefix ..).subset hm)
  · rintro ⟨hcomma, hbreak⟩
    have hfield : firstField t = chompCr (t.takeWhile (· != '\n')) := by
      refine List.takeWhile_eq_self_iff.mpr fun c hc => ?_
      have hmem := (List.takeWhile_prefix _).subset ((prefix_chompCr _).subset hc)
      refine bne_iff_ne.mpr fun he => hcomma ?_
      rwa [← he]
    have hs := List.takeWhile_append_dropWhile (p := (· != '\n')) (l := t)
    rw [hfield, trim_chompCr]
    conv_rhs => rw [← hs]
    rw [trim_eq_trim_append]
    exact blank_behind hbreak

section

variable {checked : Bool} {debug : Str → Str}

/-- A number is never refused, whatever becomes of it. -/
theorem readMemory_parsed {raw : Str} {n : Nat} {r : Option Nat × Option Str}
    (h : parseUnsigned 64 raw = some n) (hr : readMemory checked debug raw = some r) :
    ∃ bytes < 2 ^ 64, r = (some bytes, none) := by
  unfold readMemory at hr
  rw [h] at hr
  obtain ⟨kib, -, hr⟩ := Option.bind_eq_some_iff.mp hr
  obtain ⟨bytes, hmul, hr⟩ := Option.bind_eq_some_iff.mp hr
  refine ⟨bytes, ?_, (Option.some.inj hr).symm⟩
  unfold mulU64 at hmul
  split at hmul
  · cases hmul; assumption
  · split at hmul
    · cases hmul
    · cases hmul
      exact Nat.mod_lt _ (by omega)

theorem readMemory_number {n : Nat} (h : n < 2 ^ 44) :
    readMemory checked debug (toDec n) = some (some (n * 2 ^ 20), none) := by
  unfold readMemory
  rw [parseUnsigned_toDec (by omega)]
  dsimp only
  rw [mulU64, if_pos (by omega), Option.bind_eq_bind, Option.bind_some, mulU64, if_pos (by omega),
    Option.bind_some, Nat.mul_assoc]
  rfl

theorem readMemory_text (hd : Function.Injective debug) {t raw : Str}
    (h : parseUnsigned 64 (trim t) = none) :
    readMemory checked debug raw = some (none, some (memoryReason debug (trim t))) ↔
      raw = trim t := by
  constructor
  · intro hr
    cases hp : parseUnsigned 64 raw with
    | some n =>
      obtain ⟨bytes, -, he⟩ := readMemory_parsed hp hr
      simp at he
    | none =>
      unfold readMemory at hr
      rw [hp] at hr
      have hr : memoryReason debug raw = memoryReason debug (trim t) := by simpa using hr
      exact hd (List.append_cancel_left (List.append_cancel_right hr))
  · rintro rfl
    unfold readMemory
    rw [h]

/-! ## One row -/

/-- The line a row begins with, up to the memory. -/
def ComputeApp.head (app : ComputeApp) : Str := toDec app.pid ++ ',' :: ' ' :: app.name ++ [',']

variable {app : ComputeApp} {apps : List ComputeApp} {rest : Str}

theorem ComputeApp.shown_eq (app : ComputeApp) : app.shown = app.head ++ ' ' :: app.memory.shown := by
  simp [ComputeApp.shown, ComputeApp.head]

theorem not_mem_head (app : ComputeApp) : '\n' ∉ app.head := by
  have hpid : '\n' ∉ toDec app.pid := fun h => (plain_of_mem_toDec h).2.2.1 rfl
  simp [ComputeApp.head, hpid, app.oneLine]

theorem comma_not_mem_toDec (n : Nat) : ',' ∉ toDec n := fun h =>
  absurd (isDigit_of_mem_toDec h) (by decide)

theorem parse_fields (s : Str) :
    parseComputeApp checked debug (toDec app.pid ++ ',' :: s) =
      match (s.splitOn ',').map trim with
      | name :: rest => (readMemory checked debug (rest.head?.getD [])).map fun (used, reason) =>
          some { pid := app.pid, name, usedMemoryBytes := used, reason }
      | [] => some none := by
  have hpid : trim (toDec app.pid) = toDec app.pid :=
    trim_eq_self fun _ hc => (plain_of_mem_toDec hc).1
  unfold parseComputeApp
  rw [List.splitOn_append_cons_self_of_not_mem (comma_not_mem_toDec _), List.map_cons, hpid]
  cases (s.splitOn ',').map trim with
  | nil => rfl
  | cons name rest => simp only [parseUnsigned_toDec app.pid_lt]

/-- A line of a row is always read, or the reader panics at it. Without a comma in the name it is
the whole name, and the memory is what stands before the next comma. -/
theorem parse_head (checked : Bool) (debug : Str → Str) (app : ComputeApp) (u : Str) :
    ∃ name raw, parseComputeApp checked debug (app.head ++ ' ' :: u) =
        (readMemory checked debug raw).map (fun (used, reason) =>
          some { pid := app.pid, name, usedMemoryBytes := used, reason }) ∧
      (name = trim app.name ↔ ',' ∉ app.name) ∧
      (',' ∉ app.name → raw = trim (u.takeWhile (· != ','))) := by
  have hline : app.head ++ ' ' :: u = toDec app.pid ++ ',' :: (' ' :: app.name ++ ',' :: ' ' :: u) := by
    simp [ComputeApp.head]
  rw [hline, parse_fields]
  obtain ⟨tail, ht, -⟩ := splitOn_eq_cons ',' (' ' :: app.name ++ ',' :: ' ' :: u)
  rw [ht, List.map_cons]
  refine ⟨_, _, rfl, ⟨fun he hm => ?_, fun hn => ?_⟩, fun hn => ?_⟩
  · have hm : ',' ∈ trim app.name := (mem_trim (by decide)).mpr hm
    rw [← he, mem_trim (by decide)] at hm
    simpa using List.mem_takeWhile_imp hm
  · rw [List.takeWhile_append_of_pos fun c hc => bne_iff_ne.mpr fun he => by
      subst he
      exact hn ((List.mem_cons.mp hc).resolve_left (by decide))]
    rw [List.takeWhile_cons_of_neg (by decide), List.append_nil, trim_cons (by decide)]
  · have hn' : ',' ∉ ' ' :: app.name := fun hc => hn ((List.mem_cons.mp hc).resolve_left (by decide))
    obtain ⟨tail', ht', -⟩ := splitOn_eq_cons ',' (' ' :: u)
    rw [List.splitOn_append_cons_self_of_not_mem hn', ht', List.cons.injEq] at ht
    rw [← ht.2, List.map_cons, List.head?_cons, Option.getD_some,
      List.takeWhile_cons_of_pos (by decide), trim_cons (by decide)]

theorem trim_firstField_number (n : Nat) : trim (firstField (toDec n)) = toDec n := by
  have htrim : trim (toDec n) = toDec n := trim_eq_self fun _ hc => (plain_of_mem_toDec hc).1
  rw [(trim_firstField_iff _).mpr, htrim]
  refine ⟨comma_not_mem_toDec n, fun h => ?_⟩
  exact (plain_of_mem_toDec ((List.rdropWhile_prefix ..).subset h)).2.2.1 rfl

theorem readMemory_entry_iff (hd : Function.Injective debug) :
    readMemory checked debug (trim (firstField app.memory.shown)) =
        some ((app.entry debug).usedMemoryBytes, (app.entry debug).reason) ↔
      match app.memory with
      | .mib n _ => n < 2 ^ 44
      | .text t _ => ',' ∉ t ∧ '\n' ∉ t.rdropWhile isWhitespace := by
  unfold ComputeApp.entry
  cases app.memory with
  | mib n fits =>
    dsimp only [UsedMemory.shown]
    rw [trim_firstField_number]
    by_cases hn : n < 2 ^ 44
    · rw [if_pos (by omega), if_pos (by omega)]
      exact iff_of_true (readMemory_number hn) hn
    · rw [if_neg (by omega), if_neg (by omega)]
      refine iff_of_false (fun hr => ?_) hn
      obtain ⟨bytes, -, he⟩ := readMemory_parsed (parseUnsigned_toDec fits) hr
      simp at he
  | text t noNumber =>
    dsimp only [UsedMemory.shown]
    rw [readMemory_text hd noNumber, trim_firstField_iff]

theorem parse_first_iff (hd : Function.Injective debug) :
    parseComputeApp checked debug
        (app.head ++ ' ' :: chompCr (app.memory.shown.takeWhile (· != '\n'))) =
      some (some (app.entry debug)) ↔ app.Plain := by
  obtain ⟨name, raw, hparse, hname, hraw⟩ := parse_head checked debug app
    (chompCr (app.memory.shown.takeWhile (· != '\n')))
  rw [hparse, ComputeApp.Plain, ← @readMemory_entry_iff checked debug app hd, ← hname]
  constructor
  · intro h
    obtain ⟨⟨used, reason⟩, hr, he⟩ := Option.map_eq_some_iff.mp h
    have he : (⟨app.pid, name, used, reason⟩ : GpuApp) = app.entry debug := Option.some.inj he
    have hn : name = trim app.name := congrArg GpuApp.name he
    rw [← he]
    refine ⟨hn, ?_⟩
    rw [← hr, hraw (hname.mp hn)]
    rfl
  · rintro ⟨hn, hr⟩
    rw [hraw (hname.mp hn)]
    refine Option.map_eq_some_iff.mpr ⟨_, hr, ?_⟩
    rw [hn]
    rfl

theorem parse_first_ne (u : Str) :
    parseComputeApp checked debug (app.head ++ ' ' :: u) ≠ some none := by
  obtain ⟨name, raw, hparse, -⟩ := parse_head checked debug app u
  rw [hparse]
  intro h
  obtain ⟨r, -, he⟩ := Option.map_eq_some_iff.mp h
  cases he

theorem parse_blank {l : Str} (h : ∀ c ∈ l, isWhitespace c = true) :
    parseComputeApp checked debug l = some none := by
  have hcomma : ',' ∉ l := fun hc => absurd (h _ hc) (by decide)
  unfold parseComputeApp
  rw [List.splitOn_eq_singleton hcomma]
  rfl

theorem lines_row (app : ComputeApp) : ∃ tail,
    (∀ rest, lines (app.shown ++ '\n' :: rest) =
      (app.head ++ ' ' :: chompCr (app.memory.shown.takeWhile (· != '\n'))) ::
        (tail ++ lines rest)) ∧
    ∀ l ∈ tail, ∀ c ∈ l, c ∈ app.memory.shown.dropWhile (· != '\n') := by
  obtain ⟨tail, ht, hmem⟩ := splitOn_eq_cons '\n' app.shown
  have hhead : ∀ c ∈ app.head, (c != '\n') = true := fun c hc => bne_iff_ne.mpr fun he => by
    subst he
    exact not_mem_head app hc
  have htake : app.shown.takeWhile (· != '\n') =
      app.head ++ ' ' :: app.memory.shown.takeWhile (· != '\n') := by
    rw [app.shown_eq, List.takeWhile_append_of_pos hhead, List.takeWhile_cons_of_pos (by decide)]
  have hdrop : app.shown.dropWhile (· != '\n') = app.memory.shown.dropWhile (· != '\n') := by
    rw [app.shown_eq, List.dropWhile_append_of_pos hhead, List.dropWhile_cons_of_pos (by decide)]
  refine ⟨tail.map chompCr, fun rest => ?_, fun l hl c hc => ?_⟩
  · rw [lines_append, ht, List.map_cons, htake, chompCr_append_cons (by decide)]
    rfl
  · obtain ⟨l', hl', rfl⟩ := List.mem_map.mp hl
    rw [← hdrop]
    exact hmem l' hl' c ((prefix_chompCr l').subset hc)

theorem blank_tail (h : app.Plain) :
    ∀ c ∈ app.memory.shown.dropWhile (· != '\n'), isWhitespace c = true := by
  refine blank_behind ?_
  have h := h.2
  cases hm : app.memory with
  | mib n fits =>
    exact fun hc => (plain_of_mem_toDec ((List.rdropWhile_prefix ..).subset hc)).2.2.1 rfl
  | text t noNumber =>
    rw [hm] at h
    exact h.2

/-! ## All rows -/

theorem parseLines_cons (l : Str) (ls : List Str) :
    parseComputeLines checked debug (l :: ls) =
      (parseComputeApp checked debug l).bind fun g =>
        (parseComputeLines checked debug ls).map (g.toList ++ ·) := by
  unfold parseComputeLines
  rw [List.mapM_cons]
  cases parseComputeApp checked debug l with
  | none => rfl
  | some g => cases ls.mapM (parseComputeApp checked debug) <;> cases g <;> rfl

theorem parseLines_blank {ls : List Str} (h : ∀ l ∈ ls, ∀ c ∈ l, isWhitespace c = true)
    (ls' : List Str) :
    parseComputeLines checked debug (ls ++ ls') = parseComputeLines checked debug ls' := by
  induction ls with
  | nil => rfl
  | cons l ls ih =>
    rw [List.cons_append, parseLines_cons, parse_blank (h l (List.mem_cons_self ..)), Option.bind_some,
      ih fun l' hl => h l' (List.mem_cons_of_mem _ hl)]
    cases parseComputeLines checked debug ls' <;> rfl

/-- One row: its entry is first, and nothing comes between it and the next row. -/
theorem parse_row_iff (hd : Function.Injective debug) {gs : List GpuApp} :
    parseComputeApps checked debug (app.shown ++ '\n' :: rest) = some (app.entry debug :: gs) ↔
      app.Plain ∧ parseComputeApps checked debug rest = some gs := by
  obtain ⟨tail, hl, htail⟩ := lines_row app
  unfold parseComputeApps
  rw [hl, parseLines_cons]
  constructor
  · intro h
    obtain ⟨g, hg, h⟩ := Option.bind_eq_some_iff.mp h
    obtain ⟨gs', hrest, hgs⟩ := Option.map_eq_some_iff.mp h
    cases g with
    | none => exact absurd hg (parse_first_ne _)
    | some g =>
      obtain ⟨rfl, rfl⟩ := List.cons.inj hgs
      have hplain : app.Plain := (parse_first_iff hd).mp hg
      refine ⟨hplain, ?_⟩
      rwa [parseLines_blank fun l hm c hc => blank_tail hplain c (htail l hm c hc)] at hrest
  · rintro ⟨hplain, hrest⟩
    rw [(parse_first_iff hd).mpr hplain,
      parseLines_blank fun l hm c hc => blank_tail hplain c (htail l hm c hc), hrest]
    rfl

/-- **The processes on the GPU are read back** if and only if each of them is plain. -/
theorem appsRead_iff (checked : Bool) {debug : Str → Str} (hd : Function.Injective debug)
    (apps : List ComputeApp) :
    parseComputeApps checked debug (ComputeApp.render apps) = some (apps.map (ComputeApp.entry debug)) ↔
      ∀ app ∈ apps, app.Plain := by
  induction apps with
  | nil => exact iff_of_true rfl fun _ h => nomatch h
  | cons app apps ih =>
    rw [List.map_cons, ComputeApp.render, List.flatMap_cons, List.append_assoc, List.singleton_append,
      parse_row_iff hd, List.forall_mem_cons]
    exact and_congr_right fun _ => ih

end

/-! ### Plain rows, a comma in a name, and a memory out of range -/

def llamaApp : ComputeApp where
  pid := 4242
  name := "/usr/bin/llama-server"
  memory := .mib 6144 (by decide)
  pid_lt := by decide
  oneLine := by decide

def pythonApp : ComputeApp where
  pid := 4243
  name := "python3"
  memory := .text "[N/A]" (by decide)
  pid_lt := by decide
  oneLine := by decide

theorem appsRead_llama :
    parseComputeApps true quoted ("4242, /usr/bin/llama-server, 6144\n4243, python3, [N/A]\n" : Str) =
      some [⟨4242, "/usr/bin/llama-server", some 6442450944, none⟩,
        ⟨4243, "python3", none, some "nvidia-smi reported \"[N/A]\" for used_memory"⟩] := by
  have hrender : ("4242, /usr/bin/llama-server, 6144\n4243, python3, [N/A]\n" : Str) =
      ComputeApp.render [llamaApp, pythonApp] := by decide +kernel
  rw [hrender, (appsRead_iff true quoted_injective [llamaApp, pythonApp]).mpr (by decide +kernel)]
  decide +kernel

/-- A comma in the name: the name is cut, and the memory is lost. 2^44 MiB: a panic with overflow
checks, none in use without them. -/
theorem not_appsRead :
    (let app : ComputeApp :=
      { pid := 4242, name := "vllm a,b", memory := .mib 6144 (by decide), pid_lt := by decide,
        oneLine := by decide }
    ∀ checked, parseComputeApps checked quoted (ComputeApp.render [app]) ≠ some [app.entry quoted] ∧
      parseComputeApps checked quoted (ComputeApp.render [app]) =
        some [⟨4242, "vllm a", none, some "nvidia-smi reported \"b\" for used_memory"⟩]) ∧
    (let app : ComputeApp :=
      { pid := 4242, name := "vllm", memory := .mib (2 ^ 44) (by decide), pid_lt := by decide,
        oneLine := by decide }
    parseComputeApps true quoted (ComputeApp.render [app]) = none ∧
      parseComputeApps false quoted (ComputeApp.render [app]) = some [⟨4242, "vllm", some 0, none⟩]) := by
  decide +kernel

end Saltnitor.Process
