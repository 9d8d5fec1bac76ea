import Saltnitor.Rust.Number

/-!
# Tasks and their `/proc` files

A `Task` is what the kernel keeps of one process or thread; `statText` and
`statusText` are its `/proc/<pid>/stat` and `/proc/<pid>/status`. The program
sees these texts only: `parseStat`, `parseUid`, `parseTgid` and `parsePpid` read
them as `identity`, `tgid` and `runtime_tree` do, and each is shown to read back
the field it looks for.
-/

namespace Saltnitor.Process

open Rust

/-! ## Tasks -/

/-- A field of the stat line: no blank and no closing parenthesis in it. -/
def PlainField (f : Str) : Prop := f ≠ [] ∧ ∀ c ∈ f, isWhitespace c = false ∧ c ≠ ')'

structure Task where
  /-- Which process or thread this is: PIDs are used again, ids are not. -/
  id : Nat
  pid : Nat
  /-- The PID of the thread-group leader. -/
  tgid : Nat
  ppid : Nat
  startTimeTicks : Nat
  /-- The real uid. -/
  uid : Nat
  state : Char
  comm : Str
  /-- The command name as the status file prints it, line feeds escaped. -/
  shownName : Str
  /-- Fields 5 to 21 of the stat line, and what follows field 22. -/
  statFields : List Str
  statRest : Str
  /-- The other uids, and what follows the uid line of the status file. -/
  uidsRest : Str
  statusRest : Str
  pid_pos : 0 < pid
  pid_lt : pid < 2 ^ 22
  tgid_lt : tgid < 2 ^ 22
  ppid_lt : ppid < 2 ^ 22
  start_lt : startTimeTicks < 2 ^ 64
  uid_lt : uid < 2 ^ 32
  state_plain : PlainField [state]
  name_plain : '\n' ∉ shownName
  fields_plain : statFields.length = 17 ∧ ∀ f ∈ statFields, PlainField f
  rest_plain : ')' ∉ statRest
  uids_plain : '\n' ∉ uidsRest

namespace Task

/-- A thread-group leader, what the program calls a process. -/
def isLeader (t : Task) : Prop := t.tgid = t.pid

instance (t : Task) : Decidable t.isLeader := inferInstanceAs (Decidable (_ = _))

/-- Exited and not yet reaped. -/
def isZombie (t : Task) : Prop := t.state = 'Z'

instance (t : Task) : Decidable t.isZombie := inferInstanceAs (Decidable (_ = _))

/-- Fields 3 to 22 of the stat line. -/
def statWords (t : Task) : List Str :=
  [t.state] :: toDec t.ppid :: t.statFields ++ [toDec t.startTimeTicks]

/-- `/proc/<pid>/stat`. -/
def statText (t : Task) : Str :=
  (toDec t.pid ++ (" (" : Str) ++ t.comm) ++
    ')' :: ' ' :: (t.statWords.flatMap (· ++ [' ']) ++ t.statRest)

def statusLines (t : Task) : List Str := [
  ("Name:\t" : Str) ++ t.shownName,
  "Umask:\t0022",
  ("State:\t" : Str) ++ [t.state],
  ("Tgid:\t" : Str) ++ toDec t.tgid,
  "Ngid:\t0",
  ("Pid:\t" : Str) ++ toDec t.pid,
  ("PPid:\t" : Str) ++ toDec t.ppid,
  "TracerPid:\t0",
  ("Uid:\t" : Str) ++ toDec t.uid ++ '\t' :: t.uidsRest]

/-- `/proc/<pid>/status`. -/
def statusText (t : Task) : Str := t.statusLines.flatMap (· ++ ['\n']) ++ t.statusRest

end Task

/-! ## Reading them -/

structure Identity where
  startTimeTicks : Nat
  uid : Nat
  deriving DecidableEq

/-- The start time in a stat line; `none` for a zombie. -/
def parseStat (stat : Str) : Option Nat := do
  let after ← afterLast ')' stat
  let fields := splitWhitespace after
  if fields.head? = some ['Z'] then none
  else (← fields[19]?) |> parseUnsigned 64

/-- The value of the first line of a status file that starts with `key`. -/
def statusField (key status : Str) : Option Str := (lines status).findSome? (List.isPrefixOf? key)

/-- The real uid in a status file. -/
def parseUid (status : Str) : Option Nat := do
  let v ← statusField "Uid:" status
  parseUnsigned 32 (← (splitWhitespace v).head?)

/-- The thread-group leader in a status file. -/
def parseTgid (status : Str) : Option Nat := (statusField "Tgid:" status).bind fun v =>
  parseUnsigned 32 (trim v)

/-- The parent in a status file. -/
def parsePpid (status : Str) : Option Nat := (statusField "PPid:" status).bind fun v =>
  parseUnsigned 32 (trim v)

/-- `identity` on the two files it reads; `none` when the process is gone or a zombie. -/
def identity (stat status : Option Str) : Option Identity := do
  let startTimeTicks ← parseStat (← stat)
  let uid ← parseUid (← status)
  some { startTimeTicks, uid }

def tgid (status : Option Str) : Option Nat := status.bind parseTgid

/-! ## What they read back -/

theorem digit_plain : ∀ n < 58, 48 ≤ n → isWhitespace (Char.ofNat n) = false ∧
    Char.ofNat n ≠ ')' ∧ Char.ofNat n ≠ '\n' ∧ Char.ofNat n ≠ '\r' := by decide

theorem plain_of_mem_toDec {n : Nat} {c : Char} (h : c ∈ toDec n) :
    isWhitespace c = false ∧ c ≠ ')' ∧ c ≠ '\n' ∧ c ≠ '\r' := by
  have hd := isDigit_of_mem_toDec h
  simp only [Char.isDigit, Bool.and_eq_true, decide_eq_true_iff] at hd
  have h1 : 48 ≤ c.toNat := hd.1
  have h2 : c.toNat ≤ 57 := hd.2
  have := digit_plain c.toNat (by omega) h1
  rwa [Char.ofNat_toNat] at this

theorem plainField_toDec (n : Nat) : PlainField (toDec n) :=
  ⟨toDec_ne_nil n, fun _ hc => ⟨(plain_of_mem_toDec hc).1, (plain_of_mem_toDec hc).2.1⟩⟩

theorem trim_tab_toDec (n : Nat) : trim ('\t' :: toDec n) = toDec n := by
  have hd : (toDec n).dropWhile isWhitespace = toDec n := by
    cases hn : toDec n with
    | nil => exact absurd hn (toDec_ne_nil n)
    | cons c s =>
      have hc := (plain_of_mem_toDec (n := n) (c := c) (by rw [hn]; exact List.mem_cons_self ..)).1
      exact List.dropWhile_cons_of_neg (by simp [hc])
  have hlast : ∀ h : toDec n ≠ [], ¬ isWhitespace ((toDec n).getLast h) = true := fun h => by
    simp [(plain_of_mem_toDec (List.getLast_mem h)).1]
  have htab : isWhitespace '\t' = true := by decide
  rw [trim, trimMatches, List.dropWhile_cons_of_pos htab, hd, List.rdropWhile_eq_self_iff]
  exact hlast

theorem chompCr_toDec {s : Str} (n : Nat) : chompCr (s ++ toDec n) = s ++ toDec n := by
  have hne := toDec_ne_nil n
  refine if_neg fun h => ?_
  rw [List.getLast?_append_of_ne_nil _ hne, List.getLast?_eq_some_getLast hne] at h
  exact (plain_of_mem_toDec (List.getLast_mem hne)).2.2.2 (Option.some.inj h)

/-- Dropping a carriage return touches only what follows another character. -/
theorem chompCr_append_cons {s r : Str} {c : Char} (hc : c ≠ '\r') :
    chompCr (s ++ c :: r) = s ++ c :: chompCr r := by
  cases r with
  | nil => simp [chompCr, hc]
  | cons d r =>
    have hne : d :: r ≠ [] := List.cons_ne_nil d r
    have hlast : (s ++ c :: d :: r).getLast? = (d :: r).getLast? := by
      rw [List.getLast?_append_of_ne_nil _ (List.cons_ne_nil c (d :: r)), List.getLast?_cons_cons]
    unfold chompCr
    rw [hlast]
    split
    · rw [List.dropLast_append_of_ne_nil (List.cons_ne_nil c (d :: r)),
        List.dropLast_cons_of_ne_nil hne]
    · rfl

namespace Task

variable (t : Task)

theorem statWords_plain : ∀ f ∈ t.statWords, PlainField f := by
  intro f hf
  simp only [statWords, List.mem_append, List.mem_cons, List.not_mem_nil, or_false] at hf
  rcases hf with (rfl | rfl | hf) | rfl
  · exact t.state_plain
  · exact plainField_toDec _
  · exact t.fields_plain.2 f hf
  · exact plainField_toDec _

theorem statWords_start (s : List Str) : (t.statWords ++ s)[19]? = some (toDec t.startTimeTicks) := by
  have hl : ([t.state] :: toDec t.ppid :: t.statFields).length = 19 := by
    simp [t.fields_plain.1]
  rw [statWords, List.append_assoc, List.getElem?_append_right hl.le, hl]
  rfl

/-- The start time comes back, whatever the command name is; a zombie gives none. -/
theorem parseStat_statText :
    parseStat t.statText = if t.isZombie then none else some t.startTimeTicks := by
  have hpar : ')' ∉ ' ' :: (t.statWords.flatMap (· ++ [' ']) ++ t.statRest) := by
    simp only [List.mem_cons, List.mem_append, List.mem_flatMap, not_or, not_exists, not_and]
    exact ⟨by decide, fun f hf => ⟨fun hm => ((t.statWords_plain f hf).2 _ hm).2 rfl, by decide,
      List.not_mem_nil⟩, t.rest_plain⟩
  have hwords : splitWhitespace (' ' :: (t.statWords.flatMap (· ++ [' ']) ++ t.statRest)) =
      t.statWords ++ splitWhitespace t.statRest := by
    rw [splitWhitespace_cons (by decide), splitWhitespace_flatMap _ (by decide)]
    exact fun w hw => ⟨(t.statWords_plain w hw).1, fun d hd => ((t.statWords_plain w hw).2 d hd).1⟩
  have hhead : (t.statWords ++ splitWhitespace t.statRest).head? = some ['Z'] ↔ t.isZombie := by
    simp [statWords, isZombie]
  unfold parseStat statText
  simp only [afterLast_append hpar, Option.bind_eq_bind, Option.bind_some, hwords, hhead,
    t.statWords_start]
  split
  · rfl
  · exact parseUnsigned_toDec t.start_lt

theorem statusLines_plain : ∀ l ∈ t.statusLines, '\n' ∉ l := by
  have hd (n : Nat) : '\n' ∉ toDec n := fun h => (plain_of_mem_toDec h).2.2.1 rfl
  have hs : '\n' ≠ t.state := by
    rintro h
    have := (t.state_plain.2 '\n' (by rw [h]; exact List.mem_singleton_self _)).1
    revert this; decide
  simp [statusLines, t.name_plain, hd, hs, t.uids_plain]

/-- The first line with the key is found behind lines without it. -/
theorem statusField_statusText {key v : Str} (before : List Str) (l : Str) (after : List Str)
    (hl : t.statusLines = before ++ l :: after) (hb : ∀ x ∈ before, ¬ key <+: x)
    (hv : List.isPrefixOf? key (chompCr l) = some v) : statusField key t.statusText = some v := by
  rw [statusField, statusText, lines_flatMap _ t.statusLines_plain, hl]
  refine List.findSome?_eq_some_iff.mpr
    ⟨before.map chompCr, chompCr l, after.map chompCr ++ lines t.statusRest, by simp, hv, ?_⟩
  intro x hx
  obtain ⟨y, hy, rfl⟩ := List.mem_map.mp hx
  rw [Option.eq_none_iff_forall_ne_some]
  intro w hw
  exact hb y hy ((List.prefix_append ..).trans
    ((isPrefixOf?_eq_some.mp hw) ▸ prefix_chompCr y))

theorem parseTgid_statusText : parseTgid t.statusText = some t.tgid := by
  have hf : statusField "Tgid:" t.statusText = some ('\t' :: toDec t.tgid) :=
    t.statusField_statusText
      [("Name:\t" : Str) ++ t.shownName, "Umask:\t0022", ("State:\t" : Str) ++ [t.state]]
      (("Tgid:\t" : Str) ++ toDec t.tgid) _ rfl (by simp) (by rw [chompCr_toDec]; rfl)
  rw [parseTgid, hf, Option.bind_some, trim_tab_toDec]
  exact parseUnsigned_toDec (t.tgid_lt.trans (by decide))

theorem parsePpid_statusText : parsePpid t.statusText = some t.ppid := by
  have hf : statusField "PPid:" t.statusText = some ('\t' :: toDec t.ppid) :=
    t.statusField_statusText
      [("Name:\t" : Str) ++ t.shownName, "Umask:\t0022", ("State:\t" : Str) ++ [t.state],
        ("Tgid:\t" : Str) ++ toDec t.tgid, "Ngid:\t0", ("Pid:\t" : Str) ++ toDec t.pid]
      (("PPid:\t" : Str) ++ toDec t.ppid) _ rfl (by simp) (by rw [chompCr_toDec]; rfl)
  rw [parsePpid, hf, Option.bind_some, trim_tab_toDec]
  exact parseUnsigned_toDec (t.ppid_lt.trans (by decide))

theorem parseUid_statusText : parseUid t.statusText = some t.uid := by
  have hf : statusField "Uid:" t.statusText =
      some ('\t' :: (toDec t.uid ++ '\t' :: chompCr t.uidsRest)) := by
    refine t.statusField_statusText t.statusLines.dropLast
      (("Uid:\t" : Str) ++ toDec t.uid ++ '\t' :: t.uidsRest) [] rfl (by simp [statusLines]) ?_
    rw [chompCr_append_cons (by decide)]
    rfl
  have hplain := (plainField_toDec t.uid).2
  have hw : splitWhitespace ('\t' :: (toDec t.uid ++ '\t' :: chompCr t.uidsRest)) =
      toDec t.uid :: splitWhitespace (chompCr t.uidsRest) := by
    rw [splitWhitespace_cons (by decide)]
    exact splitWhitespace_word (toDec_ne_nil _) (fun d hd => (hplain d hd).1) (by decide)
  simp only [parseUid, hf, Option.bind_eq_bind, Option.bind_some, hw, List.head?_cons]
  exact parseUnsigned_toDec t.uid_lt

theorem identity_text : identity (some t.statText) (some t.statusText) =
    if t.isZombie then none else some { startTimeTicks := t.startTimeTicks, uid := t.uid } := by
  simp only [identity, Option.bind_eq_bind, Option.bind_some, parseStat_statText,
    parseUid_statusText]
  split <;> rfl

end Task

end Saltnitor.Process
