import Saltnitor.Process.Kernel
import Saltnitor.Rust.Utf8

/-!
# The files of a process, byte by byte

A process gives itself any bytes for a name, and the kernel copies them into both
files: into the stat line as they are, into the status file with line feeds and
backslashes escaped. `read_to_string` fails on a file that may not be opened or is
not UTF-8, so what the program gets of a process (`Kernel.files`) depends on its
name too: both files or none of them.
-/

namespace Saltnitor.Process

open Rust

/-! ## The files, byte by byte -/

/-- A name in the status file, where a line feed and a backslash are escaped. -/
def escapeName (name : List UInt8) : List UInt8 := name.flatMap fun b =>
  if b = 0x0A then [0x5C, 0x6E] else if b = 0x5C then [0x5C, 0x5C] else [b]

/-- `escapeName` on a text. -/
def escapeText (s : Str) : Str := s.flatMap fun c =>
  if c = '\n' then ['\\', 'n'] else if c = '\\' then ['\\', '\\'] else [c]

namespace Task

/-- `/proc/<pid>/stat` of a task with this name. -/
def statBytes (t : Task) (name : List UInt8) : List UInt8 :=
  bytes (toDec t.pid ++ (" (" : Str)) ++ name ++
    bytes (')' :: ' ' :: (t.statWords.flatMap (· ++ [' ']) ++ t.statRest))

/-- `/proc/<pid>/status` of a task with this name. -/
def statusBytes (t : Task) (name : List UInt8) : List UInt8 :=
  bytes "Name:\t" ++ escapeName name ++
    bytes ('\n' :: (t.statusLines.tail.flatMap (· ++ ['\n']) ++ t.statusRest))

end Task

/-- `identity` on the bytes of the two files: `read_to_string`, then the texts. -/
def identityOf (stat status : Option (List UInt8)) : Option Identity :=
  identity (stat.bind fromUtf8) (status.bind fromUtf8)

/-! ## Names that are texts -/

theorem newline_not_mem_escapeText (s : Str) : '\n' ∉ escapeText s := by
  intro h
  obtain ⟨c, -, hc⟩ := List.mem_flatMap.mp h
  split at hc
  · simp at hc
  · rename_i hn
    split at hc
    · simp at hc
    · exact hn (List.mem_singleton.mp hc).symm

/-- Every byte of a character past ASCII is past ASCII. -/
theorem ascii_lt_of_mem {c : Char} (h : 128 ≤ c.toNat) {b : UInt8}
    (hb : b ∈ String.utf8EncodeChar c) : 128 ≤ b.toNat := by
  have hc : c.toNat = c.val.toNat := rfl
  revert b
  fun_cases String.utf8EncodeChar c with
  | case1 => omega
  | case2 => simp; omega
  | case3 => simp; omega
  | case4 => simp; omega

theorem escapeName_char (c : Char) :
    escapeName (String.utf8EncodeChar c) = bytes (escapeText [c]) := by
  by_cases h : c.toNat < 128
  · have hall : ∀ n < 128, escapeName (String.utf8EncodeChar (Char.ofNat n)) =
        bytes (escapeText [Char.ofNat n]) := by decide +kernel
    simpa only [Char.ofNat_toNat] using hall c.toNat h
  · rw [not_lt] at h
    have hsame : escapeName (String.utf8EncodeChar c) = String.utf8EncodeChar c := by
      refine (List.flatMap_congr fun b hb => ?_).trans (List.flatMap_singleton' _)
      have hb := ascii_lt_of_mem h hb
      rw [if_neg (by rintro rfl; exact absurd hb (by decide)),
        if_neg (by rintro rfl; exact absurd hb (by decide))]
    have htext : escapeText [c] = [c] := by
      rw [escapeText, List.flatMap_singleton, if_neg (by rintro rfl; exact absurd h (by decide)),
        if_neg (by rintro rfl; exact absurd h (by decide))]
    rw [hsame, htext, bytes_cons, bytes_nil, List.append_nil]

theorem escapeText_cons (c : Char) (s : Str) :
    escapeText (c :: s) = escapeText [c] ++ escapeText s := by
  rw [escapeText, List.flatMap_cons, escapeText, List.flatMap_singleton, escapeText]

theorem escapeName_bytes (s : Str) : escapeName (bytes s) = bytes (escapeText s) := by
  induction s with
  | nil => rfl
  | cons c s ih =>
    rw [bytes_cons, escapeName, List.flatMap_append]
    change escapeName _ ++ escapeName _ = _
    rw [ih, escapeName_char, ← bytes_append, ← escapeText_cons]

namespace Task

variable (t : Task)

/-- The task with a text for its name. -/
def named (s : Str) : Task :=
  { t with comm := s, shownName := escapeText s, name_plain := newline_not_mem_escapeText s }

theorem statBytes_text (s : Str) : t.statBytes (bytes s) = bytes (t.named s).statText := by
  rw [statBytes, ← bytes_append, ← bytes_append]
  rfl

theorem statusBytes_text (s : Str) : t.statusBytes (bytes s) = bytes (t.named s).statusText := by
  rw [statusBytes, escapeName_bytes, ← bytes_append, ← bytes_append, List.append_assoc]
  simp [statusText, statusLines, named]

theorem identityOf_bytes (name : List UInt8) :
    (∀ s, name = bytes s → identityOf (some (t.statBytes name)) (some (t.statusBytes name)) =
      if t.isZombie then none else some ⟨t.startTimeTicks, t.uid⟩) ∧
    ((¬ ∃ s, name = bytes s) →
      identityOf (some (t.statBytes name)) (some (t.statusBytes name)) = none) := by
  constructor
  · rintro s rfl
    rw [statBytes_text, statusBytes_text, identityOf, Option.bind_some, Option.bind_some,
      fromUtf8_bytes, fromUtf8_bytes]
    exact (t.named s).identity_text
  · intro h
    have hnone : fromUtf8 (t.statBytes name) = none := by
      rw [Option.eq_none_iff_forall_ne_some]
      exact fun s hs => h (fromUtf8_between.mp ⟨s, hs⟩)
    rw [identityOf, Option.bind_some, hnone]
    rfl

end Task

/-! ## Names that are none -/

theorem ascii_lt_of_tail {c : Char} {b : UInt8} {l : List UInt8} (h : String.utf8EncodeChar c = b :: l) :
    ∀ x ∈ l, 128 ≤ x.toNat := by
  by_cases hc : 128 ≤ c.toNat
  · intro x hx
    exact ascii_lt_of_mem hc (h ▸ List.mem_cons_of_mem _ hx)
  · have hall : ∀ n < 128, (String.utf8EncodeChar (Char.ofNat n)).length = 1 := by decide +kernel
    have hlen := hall c.toNat (by omega)
    rw [Char.ofNat_toNat, h, List.length_cons] at hlen
    have hnil : l = [] := List.length_eq_zero_iff.mp (by omega)
    rw [hnil]
    exact nofun

/-- Bytes past ASCII stand in the escaped name as they stand in the name. -/
theorem escapeName_cut {l r name : List UInt8} (hl : ∀ b ∈ l, 128 ≤ b.toNat)
    (h : escapeName name = l ++ r) : ∃ rest, name = l ++ rest ∧ escapeName rest = r := by
  induction l generalizing name with
  | nil => exact ⟨name, rfl, h⟩
  | cons b l ih =>
    have hb : 128 ≤ b.toNat := hl b (List.mem_cons_self ..)
    cases name with
    | nil => cases h
    | cons d name =>
      rw [escapeName, List.flatMap_cons] at h
      split at h
      · rw [List.cons_append, List.cons_append] at h
        rw [← (List.cons.inj h).1] at hb
        exact absurd hb (by decide)
      · split at h
        · rw [List.cons_append, List.cons_append] at h
          rw [← (List.cons.inj h).1] at hb
          exact absurd hb (by decide)
        · rw [List.singleton_append, List.cons_append] at h
          obtain ⟨rfl, htail⟩ := List.cons.inj h
          obtain ⟨rest, rfl, hrest⟩ := ih (fun x hx => hl x (List.mem_cons_of_mem _ hx)) htail
          exact ⟨rest, rfl, hrest⟩

theorem bytes_of_append {a s : Str} {p : List UInt8} (h : bytes a ++ p = bytes s) :
    ∃ s', p = bytes s' := by
  have hread := fromUtf8_append a p
  rw [h, fromUtf8_bytes] at hread
  obtain ⟨s', hs', -⟩ := Option.map_eq_some_iff.mp hread.symm
  exact ⟨s', fromUtf8_eq_some.mp hs'⟩

/-- A name whose escaped form is a text is one. By induction on the name: an escaped byte is a
character of its own, and any other begins one. -/
theorem bytes_of_escapeName {name : List UInt8} {s : Str} (h : escapeName name = bytes s) :
    ∃ s', name = bytes s' := by
  induction hn : name.length using Nat.strong_induction_on generalizing name s with
  | h n ih =>
    subst hn
    cases name with
    | nil => exact ⟨[], rfl⟩
    | cons d name =>
      -- an escape, then the rest
      have hescape {a : Str} {c : Char} (hd : [d] = bytes [c])
          (he : bytes a ++ escapeName name = bytes s) : ∃ s', d :: name = bytes s' := by
        obtain ⟨t, ht⟩ := bytes_of_append he
        obtain ⟨s', rfl⟩ := ih name.length (by simp) ht rfl
        exact ⟨c :: s', by rw [← List.singleton_append, hd, ← bytes_append]; rfl⟩
      rw [escapeName, List.flatMap_cons] at h
      split at h
      · rename_i hd
        exact hescape (a := ['\\', 'n']) (c := '\n') (by rw [hd]; decide) h
      · split at h
        · rename_i hd
          exact hescape (a := ['\\', '\\']) (c := '\\') (by rw [hd]; decide) h
        · cases s with
          | nil => cases h
          | cons c s =>
            obtain ⟨b, l, hc, -, -⟩ := exists_utf8EncodeChar c
            rw [bytes_cons, hc, List.singleton_append, List.cons_append] at h
            obtain ⟨rfl, htail⟩ := List.cons.inj h
            obtain ⟨rest, rfl, hrest⟩ := escapeName_cut (ascii_lt_of_tail hc) htail
            have hlt : rest.length < (d :: (l ++ rest)).length := by
              rw [List.length_cons, List.length_append]
              omega
            obtain ⟨s', rfl⟩ := ih rest.length hlt hrest rfl
            exact ⟨c :: s', by rw [bytes_cons, hc, List.cons_append]⟩

/-! ## What the program gets of them -/

/-- The PIDs in the directory, and the two files of each where they can be read as texts. -/
structure Files where
  listing : List Nat
  stat : Nat → Option Str
  status : Nat → Option Str

/-- What the kernel lets the program read: the directory, and the files of a PID. -/
structure Access where
  lists : Bool
  opens : Nat → Bool

def Access.full : Access := { lists := true, opens := fun _ => true }

/-- The task's files may be read and its name is a text, where `comm` names the tasks by their ids. -/
def Legible (comm : Nat → List UInt8) (acc : Access) (t : Task) : Prop :=
  acc.opens t.pid = true ∧ ∃ s, comm t.id = bytes s

namespace Kernel

/-- `/proc/<pid>/stat`, where `comm` names the tasks by their ids. -/
def statBytes (k : Kernel) (comm : Nat → List UInt8) (pid : Nat) : Option (List UInt8) :=
  (k.find pid).map fun t => t.statBytes (comm t.id)

def statusBytes (k : Kernel) (comm : Nat → List UInt8) (pid : Nat) : Option (List UInt8) :=
  (k.find pid).map fun t => t.statusBytes (comm t.id)

/-- `read_dir`, and `read_to_string` on the files of each PID. -/
def files (k : Kernel) (comm : Nat → List UInt8) (acc : Access) : Files where
  listing := if acc.lists then k.listing else []
  stat pid := if acc.opens pid then (k.statBytes comm pid).bind fromUtf8 else none
  status pid := if acc.opens pid then (k.statusBytes comm pid).bind fromUtf8 else none

/-- The same where all can be read and every name is the text that the task holds. -/
def texts (k : Kernel) : Files where
  listing := k.listing
  stat := k.stat
  status := k.status

@[simp] theorem texts_stat (k : Kernel) : k.texts.stat = k.stat := rfl

@[simp] theorem texts_status (k : Kernel) : k.texts.status = k.status := rfl

variable {k : Kernel} {comm : Nat → List UInt8} {acc : Access} {pid : Nat} {t : Task}

theorem files_of_text (ht : t ∈ k.tasks) (ho : acc.opens t.pid = true) {s : Str}
    (hs : comm t.id = bytes s) :
    (k.files comm acc).stat t.pid = some (t.named s).statText ∧
      (k.files comm acc).status t.pid = some (t.named s).statusText := by
  have hfind : k.find t.pid = some t := find_eq_some.mpr ⟨ht, rfl⟩
  simp only [files, if_pos ho, statBytes, statusBytes, hfind, Option.map_some, Option.bind_some, hs,
    Task.statBytes_text, Task.statusBytes_text, fromUtf8_bytes, and_self]

theorem files_of_not_legible (ht : t ∈ k.tasks) (h : ¬ Legible comm acc t) :
    (k.files comm acc).stat t.pid = none ∧ (k.files comm acc).status t.pid = none := by
  by_cases ho : acc.opens t.pid = true
  · have hno : ¬ ∃ s, comm t.id = bytes s := fun hs => h ⟨ho, hs⟩
    have hfind : k.find t.pid = some t := find_eq_some.mpr ⟨ht, rfl⟩
    have hstat : fromUtf8 (t.statBytes (comm t.id)) = none :=
      Option.eq_none_iff_forall_ne_some.mpr fun s hs => hno (fromUtf8_between.mp ⟨s, hs⟩)
    have hstatus : fromUtf8 (t.statusBytes (comm t.id)) = none := by
      refine Option.eq_none_iff_forall_ne_some.mpr fun s hs => hno ?_
      obtain ⟨s', hs'⟩ := fromUtf8_between.mp ⟨s, hs⟩
      exact bytes_of_escapeName hs'
    simp only [files, if_pos ho, statBytes, statusBytes, hfind, Option.map_some, Option.bind_some,
      hstat, hstatus, and_self]
  · exact ⟨if_neg ho, if_neg ho⟩

theorem files_of_none (h : k.find pid = none) :
    (k.files comm acc).stat pid = none ∧ (k.files comm acc).status pid = none := by
  simp only [files, statBytes, statusBytes, h, Option.map_none, Option.bind_none, ite_self, and_self]

theorem ppid_files {a : Nat} : ((k.files comm acc).status pid).bind parsePpid = some a ↔
    ∃ t ∈ k.tasks, t.pid = pid ∧ t.ppid = a ∧ Legible comm acc t := by
  constructor
  · intro h
    cases hf : k.find pid with
    | none =>
      rw [(files_of_none hf).2] at h
      cases h
    | some t =>
      obtain ⟨ht, rfl⟩ := find_eq_some.mp hf
      by_cases hs : Legible comm acc t
      · obtain ⟨ho, s, hs⟩ := hs
        rw [(files_of_text ht ho hs).2, Option.bind_some, Task.parsePpid_statusText] at h
        exact ⟨t, ht, rfl, Option.some.inj h, ho, s, hs⟩
      · rw [(files_of_not_legible ht hs).2] at h
        cases h
  · rintro ⟨t, ht, rfl, rfl, ho, s, hs⟩
    rw [(files_of_text ht ho hs).2, Option.bind_some, Task.parsePpid_statusText]
    rfl

theorem identity_files {i : Identity} :
    identity ((k.files comm acc).stat pid) ((k.files comm acc).status pid) = some i ↔
      ∃ t ∈ k.tasks, t.pid = pid ∧ ¬ t.isZombie ∧ Legible comm acc t ∧
        i = ⟨t.startTimeTicks, t.uid⟩ := by
  constructor
  · intro h
    cases hf : k.find pid with
    | none =>
      rw [(files_of_none hf).1] at h
      cases h
    | some t =>
      obtain ⟨ht, rfl⟩ := find_eq_some.mp hf
      by_cases hs : Legible comm acc t
      · obtain ⟨ho, s, hs⟩ := hs
        rw [(files_of_text ht ho hs).1, (files_of_text ht ho hs).2, Task.identity_text] at h
        split at h
        · cases h
        · rename_i hz
          exact ⟨t, ht, rfl, hz, ⟨ho, s, hs⟩, (Option.some.inj h).symm⟩
      · rw [(files_of_not_legible ht hs).1] at h
        cases h
  · rintro ⟨t, ht, rfl, hz, ⟨ho, s, hs⟩, rfl⟩
    rw [(files_of_text ht ho hs).1, (files_of_text ht ho hs).2, Task.identity_text]
    exact if_neg hz

theorem tgid_files (ht : t ∈ k.tasks) (hs : Legible comm acc t) :
    tgid ((k.files comm acc).status t.pid) = some t.tgid := by
  obtain ⟨ho, s, hs⟩ := hs
  rw [(files_of_text ht ho hs).2, tgid, Option.bind_some, Task.parseTgid_statusText]
  rfl

/-- Where the tasks hold the names they have, and print them as the kernel escapes them. -/
theorem files_eq_texts (h : ∀ t ∈ k.tasks, comm t.id = bytes t.comm ∧ t.shownName = escapeText t.comm) :
    k.files comm .full = k.texts := by
  have hnamed (t : Task) (ht : t.shownName = escapeText t.comm) : t.named t.comm = t := by
    cases t
    simp only [Task.named, Task.mk.injEq, true_and, and_true] at ht ⊢
    exact ht.symm
  have hpid (pid : Nat) : (k.files comm .full).stat pid = k.stat pid ∧
      (k.files comm .full).status pid = k.status pid := by
    cases hf : k.find pid with
    | none => simp only [files_of_none hf, stat, status, hf, Option.map_none, and_self]
    | some t =>
      obtain ⟨ht, rfl⟩ := find_eq_some.mp hf
      obtain ⟨hs, hshown⟩ := h t ht
      have hopen : Access.full.opens t.pid = true := rfl
      simp only [files_of_text ht hopen hs, stat, status, hf, Option.map_some, hnamed t hshown, and_self]
  show Files.mk k.listing (k.files comm .full).stat (k.files comm .full).status =
    Files.mk k.listing k.stat k.status
  rw [funext fun pid => (hpid pid).1, funext fun pid => (hpid pid).2]

end Kernel

end Saltnitor.Process
