import Saltnitor.Lib.Machine
import Saltnitor.Tuner.Apply
import Saltnitor.Tuner.Panel

/-!
# Two apply tasks

Two applies are two tasks, and neither waits for the other: `step` lets one of them
read, compute or write. `kept_iff` says exactly when both updates are in the file at
the end. One task writes last; what the other wrote is lost if the last one had
read before that, unless it wrote into the same section, or nothing new.
-/

namespace Saltnitor.Tuner

open Rust Machine

/-! ## Another section stays -/

section Frame

variable {s t : Str} {ls : List Str}

theorem isSectionLine_of_trim {l : Str} (h : trim l = sectionHeader t) : isSectionLine l = true := by
  have hlast : ('[' :: (t ++ [']'])).getLast? = some ']' := by
    rw [← List.cons_append, List.getLast?_concat]
  rw [isSectionLine, h, sectionHeader, hlast]
  rfl

/-- The lines of the first section of a name. -/
def sectionBlock (t : Str) : List Str → List Str
  | [] => []
  | l :: ls =>
    if trim l = sectionHeader t then ls.takeWhile fun l => !isSectionLine l else sectionBlock t ls

theorem assignedIn_eq (content key : Str) :
    assignedIn content t key = assigned key (sectionBlock t (lines content)) := by
  rw [assignedIn, splitSection]
  induction lines content with
  | nil => rfl
  | cons l ls ih =>
    by_cases h : trim l = sectionHeader t
    · rw [List.dropWhile_cons_of_neg (by simpa using h), sectionBlock, if_pos h]
    · rw [List.dropWhile_cons_of_pos (by simpa using h), sectionBlock, if_neg h, ← ih]
      cases ls.dropWhile fun l => trim l != sectionHeader t <;> rfl

theorem sectionBlock_map_chompCr (t : Str) (ls : List Str) :
    sectionBlock t (ls.map chompCr) = (sectionBlock t ls).map chompCr := by
  induction ls with
  | nil => rfl
  | cons l ls ih =>
    rw [List.map_cons, sectionBlock, sectionBlock, trim_chompCr]
    split
    · rw [List.takeWhile_map]
      simp only [Function.comp_def, isSectionLine_chompCr]
    · exact ih

/-- What is behind another section does not depend on the lines in it. -/
theorem sectionBlock_skip {block rest : List Str} (h : ∀ l ∈ block, isSectionLine l = false) :
    sectionBlock t (block ++ rest) = sectionBlock t rest := by
  induction block with
  | nil => rfl
  | cons l block ih =>
    obtain ⟨hl, hblock⟩ := List.forall_mem_cons.mp h
    have hne : trim l ≠ sectionHeader t := fun he => by
      rw [isSectionLine_of_trim he] at hl
      cases hl
    rw [List.cons_append, sectionBlock, if_neg hne, ih hblock]

theorem sectionBlock_replace {p : IniParts} (hp : p.Cut s) (hst : s ≠ t) {block : List Str}
    (hb : ∀ l ∈ block, isSectionLine l = false) :
    sectionBlock t (p.before ++ p.header :: (block ++ p.rest)) =
      sectionBlock t (p.before ++ p.header :: (p.block ++ p.rest)) := by
  have hheader : trim p.header ≠ sectionHeader t := by
    rw [hp.header, sectionHeader, sectionHeader]
    simpa using hst
  have hstop : ¬ (!isSectionLine p.header) = true := by simp [isSectionLine_of_trim hp.header]
  induction p.before with
  | nil =>
    rw [List.nil_append, List.nil_append, sectionBlock, if_neg hheader, sectionBlock, if_neg hheader,
      sectionBlock_skip hb, sectionBlock_skip hp.block]
  | cons l before ih =>
    rw [List.cons_append, List.cons_append, sectionBlock, sectionBlock, ih]
    have htake (ls : List Str) : (before ++ p.header :: ls).takeWhile (fun l => !isSectionLine l) =
        before.takeWhile fun l => !isSectionLine l := by
      have hnil : (p.header :: ls).takeWhile (fun l => !isSectionLine l) = [] :=
        List.takeWhile_cons_of_neg hstop
      rw [List.takeWhile_append, hnil, List.append_nil]
      split
      · rename_i h
        exact ((List.takeWhile_prefix _).eq_of_length h).symm
      · rfl
    rw [htake, htake]

/-- **An upsert leaves the other sections as they are.** -/
theorem assignedIn_upsert_other {content out key : Str} {kv : List (Str × Str)}
    (hkv : IniSettings kv) (hset : ∀ p ∈ kv, '\n' ∉ setting p) (hst : s ≠ t)
    (h : upsertIniSection content s kv = some out) :
    assignedIn out t key = assignedIn content t key := by
  obtain ⟨p, hp, rfl⟩ := Option.map_eq_some_iff.mp h
  obtain ⟨hls, hcut⟩ := splitSection_eq_some hp
  rw [assignedIn_eq, assignedIn_eq, lines_joinLines (newline_not_mem_upsert hset hls),
    sectionBlock_map_chompCr, assigned_map_chompCr,
    sectionBlock_replace hcut hst (not_isSectionLine_upsert hkv hcut.block), ← hls]

end Frame

/-! ## The tasks -/

inductive Phase where
  | idle
  | read (content : Str)
  | computed (updated : Str)
  | failed (report : Report)
  | written
  deriving DecidableEq

/-- The task has read and not yet written. -/
def Phase.busy : Phase → Bool
  | .read _ | .computed _ => true
  | _ => false

structure World where
  file : List UInt8
  phase : Bool → Phase

namespace World

def start (file : List UInt8) : World := ⟨file, fun _ => .idle⟩

def set (w : World) (i : Bool) (p : Phase) : World :=
  { w with phase := fun k => if k = i then p else w.phase k }

/-- The file is written at once. -/
def write (w : World) (i : Bool) (file : List UInt8) : World :=
  { w.set i .written with file := file }

variable (w : World) (i : Bool) (p : Phase) (file : List UInt8)

@[simp] theorem file_set : (w.set i p).file = w.file := rfl

@[simp] theorem phase_set_self : (w.set i p).phase i = p := if_pos rfl

@[simp] theorem phase_set_not : (w.set i p).phase (!i) = w.phase (!i) :=
  if_neg (Bool.not_ne_self i)

@[simp] theorem phase_set_of_not : (w.set (!i) p).phase i = w.phase i :=
  if_neg (Bool.not_ne_self i).symm

@[simp] theorem file_write : (w.write i file).file = file := rfl

@[simp] theorem phase_write_self : (w.write i file).phase i = .written := phase_set_self ..

@[simp] theorem phase_write_not : (w.write i file).phase (!i) = w.phase (!i) := phase_set_not ..

@[simp] theorem phase_write_of_not : (w.write (!i) file).phase i = w.phase i := phase_set_of_not ..

end World

variable {jobs : Bool → Job} {w w' : World} {i k : Bool}

/-- Task `i` goes on. -/
def step (jobs : Bool → Job) (w : World) (i : Bool) : Option World :=
  match w.phase i with
  | .idle =>
    some (w.set i (match fromUtf8 w.file with
      | some content => .read content
      | none => .failed .cannotRead))
  | .read content =>
    some (w.set i (match (jobs i).update content with
      | some updated => .computed updated
      | none => .failed .notFound))
  | .computed updated => some (w.write i (bytes updated))
  | .failed _ | .written => none

theorem step_cases (h : step jobs w i = some w') :
    (w.phase i = .idle ∧ ∃ content, fromUtf8 w.file = some content ∧ w' = w.set i (.read content)) ∨
    (∃ content updated, w.phase i = .read content ∧ (jobs i).update content = some updated ∧
      w' = w.set i (.computed updated)) ∨
    (∃ updated, w.phase i = .computed updated ∧ w' = w.write i (bytes updated)) ∨
    ((w.phase i = .idle ∨ ∃ content, w.phase i = .read content) ∧
      ∃ r, w' = w.set i (.failed r)) := by
  unfold step at h
  split at h
  · rename_i hp
    cases h
    cases hc : fromUtf8 w.file with
    | some content => exact .inl ⟨hp, content, rfl, rfl⟩
    | none => exact .inr (.inr (.inr ⟨.inl hp, _, rfl⟩))
  · rename_i content hp
    cases h
    cases hu : (jobs i).update content with
    | some updated => exact .inr (.inl ⟨content, updated, hp, hu, rfl⟩)
    | none => exact .inr (.inr (.inr ⟨.inr ⟨content, hp⟩, _, rfl⟩))
  · rename_i updated hp
    cases h
    exact .inr (.inr (.inl ⟨updated, hp, rfl⟩))
  · cases h
  · cases h

/-- A task reads only while the other one is not between its reading and its writing. -/
def Alone (w : World) (i : Bool) : Prop := w.phase i = .idle → (w.phase (!i)).busy = false

instance (w : World) (i : Bool) : Decidable (Alone w i) := inferInstanceAs (Decidable (_ → _))

/-! ## Where two tasks can be -/

/-- The task has read this file. -/
def Based (j : Job) (file : List UInt8) (p : Phase) : Prop :=
  ∃ content, fromUtf8 file = some content ∧
    (p = .read content ∨ ∃ updated, j.update content = some updated ∧ p = .computed updated)

theorem Based.busy {j : Job} {file : List UInt8} {p : Phase} (h : Based j file p) : p.busy = true := by
  obtain ⟨content, -, rfl | ⟨updated, -, rfl⟩⟩ := h <;> rfl

theorem step_idle (hi : w.phase i = .idle) (h : step jobs w i = some w') :
    (∃ p, Based (jobs i) w.file p ∧ w' = w.set i p) ∨ ∃ r, w' = w.set i (.failed r) := by
  rcases step_cases h with ⟨-, content, hc, rfl⟩ | ⟨_, _, hp, -⟩ | ⟨_, hp, -⟩ | ⟨-, r, rfl⟩
  · exact .inl ⟨.read content, ⟨content, hc, .inl rfl⟩, rfl⟩
  · cases hi.symm.trans hp
  · cases hi.symm.trans hp
  · exact .inr ⟨r, rfl⟩

theorem Based.step {file : List UInt8} (hb : Based (jobs i) file (w.phase i))
    (h : step jobs w i = some w') :
    (∃ p, Based (jobs i) file p ∧ w' = w.set i p) ∨
      (∃ file', Updated (jobs i) file file' ∧ w' = w.write i file') ∨
      ∃ r, w' = w.set i (.failed r) := by
  obtain ⟨content, hc, hp⟩ := hb
  rcases step_cases h with ⟨hi, -⟩ | ⟨content', updated, hr, hu, rfl⟩ | ⟨updated, hr, rfl⟩ |
    ⟨-, r, rfl⟩
  · rcases hp with hp | ⟨_, -, hp⟩ <;> cases hi.symm.trans hp
  · rcases hp with hp | ⟨_, -, hp⟩ <;> cases hr.symm.trans hp
    exact .inl ⟨.computed updated, ⟨content, hc, .inr ⟨updated, hu, rfl⟩⟩, rfl⟩
  · rcases hp with hp | ⟨_, hu, hp⟩ <;> cases hr.symm.trans hp
    exact .inr (.inl ⟨_, ⟨content, updated, hc, hu, rfl⟩, rfl⟩)
  · exact .inr (.inr ⟨r, rfl⟩)

/-- Where the tasks are; `serial` says that no task has read while the other one was busy, `last` is
the task of the last step. -/
inductive Stage (jobs : Bool → Job) (file : List UInt8) (serial : Prop) (last : Option Bool)
    (w : World) : Prop where
  | failed (i : Bool) (r : Report) (h : w.phase i = .failed r)
  | fresh (hs : serial) (hf : w.file = file) (h : ∀ i, w.phase i = .idle)
  | one (i : Bool) (hs : serial) (hf : w.file = file) (hi : Based (jobs i) file (w.phase i))
      (hj : w.phase (!i) = .idle)
  | overlap (hs : ¬ serial) (hf : w.file = file) (h : ∀ i, Based (jobs i) file (w.phase i))
  | wrote (i : Bool) (hu : Updated (jobs i) file w.file) (hi : w.phase i = .written)
      (hj : serial ∧ (w.phase (!i) = .idle ∨ Based (jobs !i) w.file (w.phase (!i))) ∨
        ¬ serial ∧ Based (jobs !i) file (w.phase (!i)))
  | both (i : Bool) (hl : last = some i) (hi : w.phase i = .written)
      (hj : w.phase (!i) = .written) (mid : List UInt8) (hu : Updated (jobs !i) file mid)
      (hf : serial ∧ Updated (jobs i) mid w.file ∨ ¬ serial ∧ Updated (jobs i) file w.file)

theorem step_ne_of_written (h : w.phase i = .written) : step jobs w i ≠ some w' := by
  simp [step, h]

theorem step_ne_of_failed {r : Report} (h : w.phase i = .failed r) : step jobs w i ≠ some w' := by
  simp [step, h]

theorem Stage.step {file : List UInt8} {serial serial' : Prop} {last : Option Bool}
    (hs' : serial' ↔ serial ∧ Alone w k) (hstage : Stage jobs file serial last w)
    (h : step jobs w k = some w') : Stage jobs file serial' (some k) w' := by
  cases hstage with
  | failed i r hi =>
    rcases Bool.eq_or_eq_not k i with rfl | rfl
    · exact absurd h (step_ne_of_failed hi)
    · rcases step_cases h with ⟨-, _, -, rfl⟩ | ⟨_, _, -, -, rfl⟩ | ⟨_, -, rfl⟩ | ⟨-, _, rfl⟩ <;>
        exact .failed i r (by simpa using hi)
  | fresh hs hf hidle =>
    have hs' : serial' := hs'.mpr ⟨hs, fun _ => by rw [hidle]; rfl⟩
    rcases step_idle (hidle k) h with ⟨p, hp, rfl⟩ | ⟨r, rfl⟩
    · exact .one k hs' hf (by simpa [hf] using hp) (by simpa using hidle (!k))
    · exact .failed k r (by simp)
  | one i hs hf hi hj =>
    rcases Bool.eq_or_eq_not k i with rfl | rfl
    · have hs' : serial' := hs'.mpr ⟨hs, fun hidle => by
        have := hi.busy
        rw [hidle] at this
        cases this⟩
      rcases hi.step h with ⟨p, hp, rfl⟩ | ⟨file', hu, rfl⟩ | ⟨r, rfl⟩
      · exact .one k hs' hf (by simpa using hp) (by simpa using hj)
      · exact .wrote k (by simpa using hu) (by simp) (.inl ⟨hs', .inl (by simpa using hj)⟩)
      · exact .failed k r (by simp)
    · have hs' : ¬ serial' := fun hc => by
        have := (hs'.mp hc).2 hj
        rw [Bool.not_not, hi.busy] at this
        cases this
      rcases step_idle hj h with ⟨p, hp, rfl⟩ | ⟨r, rfl⟩
      · refine .overlap hs' hf fun m => ?_
        rcases Bool.eq_or_eq_not m i with rfl | rfl
        · simpa using hi
        · simpa [hf] using hp
      · exact .failed (!i) r (by simp)
  | overlap hs hf hb =>
    have hs' : ¬ serial' := fun hc => hs (hs'.mp hc).1
    rcases (hb k).step h with ⟨p, hp, rfl⟩ | ⟨file', hu, rfl⟩ | ⟨r, rfl⟩
    · refine .overlap hs' hf fun m => ?_
      rcases Bool.eq_or_eq_not m k with rfl | rfl
      · simpa using hp
      · simpa using hb (!k)
    · exact .wrote k (by simpa using hu) (by simp) (.inr ⟨hs', by simpa using hb (!k)⟩)
    · exact .failed k r (by simp)
  | wrote i hu hi hj =>
    rcases Bool.eq_or_eq_not k i with rfl | rfl
    · exact absurd h (step_ne_of_written hi)
    · have halone : Alone w (!i) := fun _ => by rw [Bool.not_not, hi]; rfl
      rcases hj with ⟨hs, hj | hj⟩ | ⟨hs, hj⟩
      · have hs' : serial' := hs'.mpr ⟨hs, halone⟩
        rcases step_idle hj h with ⟨p, hp, rfl⟩ | ⟨r, rfl⟩
        · exact .wrote i hu (by simpa using hi) (.inl ⟨hs', .inr (by simpa using hp)⟩)
        · exact .failed (!i) r (by simp)
      · have hs' : serial' := hs'.mpr ⟨hs, halone⟩
        rcases hj.step h with ⟨p, hp, rfl⟩ | ⟨file', hu', rfl⟩ | ⟨r, rfl⟩
        · exact .wrote i hu (by simpa using hi) (.inl ⟨hs', .inr (by simpa using hp)⟩)
        · exact .both (!i) rfl (by simp) (by simpa using hi) w.file (by simpa using hu)
            (.inl ⟨hs', hu'⟩)
        · exact .failed (!i) r (by simp)
      · have hs' : ¬ serial' := fun hc => hs (hs'.mp hc).1
        rcases hj.step h with ⟨p, hp, rfl⟩ | ⟨file', hu', rfl⟩ | ⟨r, rfl⟩
        · exact .wrote i hu (by simpa using hi) (.inr ⟨hs', by simpa using hp⟩)
        · exact .both (!i) rfl (by simp) (by simpa using hi) w.file (by simpa using hu)
            (.inr ⟨hs', hu'⟩)
        · exact .failed (!i) r (by simp)
  | both i hl hi hj mid hu hf =>
    rcases Bool.eq_or_eq_not k i with rfl | rfl
    · exact absurd h (step_ne_of_written hi)
    · exact absurd h (step_ne_of_written hj)

/-- Every run is at one of the stages. -/
theorem stage_of_run {file : List UInt8} {as : List Bool}
    (h : run (step jobs) (.start file) as = some w) :
    Stage jobs file (Along (step jobs) Alone (.start file) as) as.getLast? w := by
  refine run_history (P := fun as w =>
    Stage jobs file (Along (step jobs) Alone (.start file) as) as.getLast? w)
    (.fresh trivial rfl fun _ => rfl) ?_ h
  intro as t k u hr ht hu
  rw [List.getLast?_concat]
  exact ht.step (along_concat hr) hu

/-! ## What is lost -/

/-- Every written key reads as its new value. -/
def Holds (file : List UInt8) (j : Job) : Prop :=
  ∃ content, fromUtf8 file = some content ∧
    ∀ q ∈ j.kv, (assignedIn content j.section_ q.1).head? = some (trim q.2)

/-- Both updates are in the file, of two to the same section one. -/
def Kept (jobs : Bool → Job) (file : List UInt8) : Prop :=
  if (jobs false).section_ = (jobs true).section_ then
    Holds file (jobs false) ∨ Holds file (jobs true)
  else Holds file (jobs false) ∧ Holds file (jobs true)

/-- Settings that lines can carry. -/
structure Job.Valid (j : Job) : Prop where
  settings : LineSettings j.kv
  newline : ∀ q ∈ j.kv, '\n' ∉ q.1

theorem PlainSettings.valid {kv : List (Str × Str)} (h : PlainSettings kv)
    (routerIni section_ serviceName : Str) : (⟨routerIni, section_, kv, serviceName⟩ : Job).Valid where
  settings := {
    h.ini with
    value := fun p hp => by
      have hv := (h.plain p hp).value
      exact ⟨fun hm => absurd (hv _ hm) (by decide), fun hm => absurd (hv _ hm) (by decide)⟩ }
  newline p hp hm := absurd ((h.plain p hp).key.2.1 _ hm).2 (by decide)

/-- The tuner's panel starts no other task. -/
theorem Job.valid_settings (t : Panel) (fmtF32 : Float32 → Word) (ngl : Int)
    (routerIni section_ serviceName : Str) :
    (⟨routerIni, section_, t.settings fmtF32 ngl, serviceName⟩ : Job).Valid :=
  plainSettings.valid ..

variable {j j' : Job} {file file' : List UInt8}

theorem Job.Valid.setting (h : j.Valid) : ∀ q ∈ j.kv, '\n' ∉ Tuner.setting q :=
  h.settings.newline h.newline

theorem Updated.holds (hj : j.Valid) (h : Updated j file file') : Holds file' j := by
  obtain ⟨content, updated, -, hu, rfl⟩ := h
  refine ⟨updated, fromUtf8_bytes updated, fun q hq => ?_⟩
  obtain ⟨p, p', -, hp', hall⟩ := assigning_upsert hj.settings hj.newline hu
  rw [assignedIn, hp']
  dsimp only
  rw [assigned_eq, hall q hq, List.map_cons, List.head?_cons,
    lineValue_setting_eq_trim (hj.settings.keys q hq)]

theorem Updated.holds_iff (hj : j.Valid) (hne : j.section_ ≠ j'.section_) (h : Updated j file file') :
    Holds file' j' ↔ Holds file j' := by
  obtain ⟨content, updated, hc, hu, rfl⟩ := h
  have hsame (key : Str) :
      assignedIn updated j'.section_ key = assignedIn content j'.section_ key :=
    assignedIn_upsert_other hj.settings.toIniSettings hj.setting hne hu
  constructor
  · rintro ⟨_, hc', hall⟩
    cases (fromUtf8_bytes updated).symm.trans hc'
    exact ⟨content, hc, fun q hq => by rw [← hsame]; exact hall q hq⟩
  · rintro ⟨_, hc', hall⟩
    cases hc.symm.trans hc'
    exact ⟨updated, fromUtf8_bytes updated, fun q hq => by rw [hsame]; exact hall q hq⟩

theorem kept_iff_of_ne {i : Bool} (hne : (jobs false).section_ ≠ (jobs true).section_)
    (hi : Holds file (jobs i)) : Kept jobs file ↔ Holds file (jobs !i) := by
  rw [Kept, if_neg hne]
  cases i with
  | false => exact and_iff_right hi
  | true => exact and_iff_left hi

/-- **When both tasks have reported success, no update is lost if and only if they did not overlap,
or wrote into one section, or the update written first was in the file from the start.** -/
theorem kept_iff (hjobs : ∀ i, (jobs i).Valid) {as : List Bool} {i : Bool}
    (h : run (step jobs) (.start file) (as ++ [i]) = some w) (hw : ∀ k, w.phase k = .written) :
    Kept jobs w.file ↔
      Along (step jobs) Alone (.start file) (as ++ [i]) ∨
        (jobs false).section_ = (jobs true).section_ ∨ Holds file (jobs !i) := by
  have hbusy {k : Bool} {file : List UInt8} (hb : Based (jobs k) file (w.phase k)) : False := by
    have := hb.busy
    rw [hw k] at this
    cases this
  cases stage_of_run h with
  | failed k r hk => cases (hw k).symm.trans hk
  | fresh _ _ hidle => cases (hw i).symm.trans (hidle i)
  | one k _ _ hk => exact (hbusy hk).elim
  | overlap _ _ hb => exact (hbusy (hb i)).elim
  | wrote k _ _ hj =>
    rcases hj with ⟨-, hj | hj⟩ | ⟨-, hj⟩
    · cases (hw !k).symm.trans hj
    · exact (hbusy hj).elim
    · exact (hbusy hj).elim
  | both k hl hk hj mid hu hf =>
    rw [List.getLast?_concat, Option.some.injEq] at hl
    subst hl
    have hi : Holds w.file (jobs i) := by
      rcases hf with ⟨-, hf⟩ | ⟨-, hf⟩ <;> exact hf.holds (hjobs i)
    by_cases hsec : (jobs false).section_ = (jobs true).section_
    · refine iff_of_true ?_ (.inr (.inl hsec))
      rw [Kept, if_pos hsec]
      cases i with
      | false => exact .inl hi
      | true => exact .inr hi
    · have hne : (jobs i).section_ ≠ (jobs !i).section_ := by
        cases i with
        | false => exact hsec
        | true => exact Ne.symm hsec
      rw [kept_iff_of_ne hsec hi]
      rcases hf with ⟨hs, hf⟩ | ⟨hs, hf⟩
      · rw [hf.holds_iff (hjobs i) hne]
        exact iff_of_true (hu.holds (hjobs _)) (.inl hs)
      · rw [hf.holds_iff (hjobs i) hne, or_iff_right hs, or_iff_right hsec]

/-- A setting for each of two sections. -/
def twoJobs : Bool → Job
  | false => ⟨"router.ini", "A", [("k", "2")], "llama-router"⟩
  | true => ⟨"router.ini", "B", [("n", "3")], "llama-router"⟩

def twoSections : List UInt8 := bytes "[A]\nk = 1\n[B]\nn = 1\n"

theorem kept_iff_twoJobs :
    ∃ w, run (step twoJobs) (.start twoSections) [false, false, false, true, true, true] = some w ∧
      Kept twoJobs w.file := by
  have hrun : ((run (step twoJobs) (.start twoSections) [false, false, false, true, true, true]).map
      fun w => (w.phase false, w.phase true)) = some (.written, .written) := by decide +kernel
  obtain ⟨w, hw, he⟩ := Option.map_eq_some_iff.mp hrun
  obtain ⟨h₁, h₂⟩ := Prod.mk.inj he
  have hkey : IniKey ("k" : Str) ∧ IniKey ("n" : Str) :=
    ⟨PlainKey.ini (by decide +kernel), PlainKey.ini (by decide +kernel)⟩
  have hvalid (i : Bool) : (twoJobs i).Valid := by
    cases i with
    | false =>
      exact ⟨⟨⟨List.forall_mem_singleton.mpr hkey.1, by decide +kernel⟩, by decide +kernel⟩,
        by decide +kernel⟩
    | true =>
      exact ⟨⟨⟨List.forall_mem_singleton.mpr hkey.2, by decide +kernel⟩, by decide +kernel⟩,
        by decide +kernel⟩
  have hlast : run (step twoJobs) (.start twoSections)
      ([false, false, false, true, true] ++ [true]) = some w := hw
  refine ⟨w, hw, (kept_iff hvalid hlast ?_).mpr (.inl (by decide +kernel))⟩
  exact fun k => by cases k <;> assumption

/-- Both read before either writes: the second write takes the first one's setting back. -/
theorem not_kept_overlapping :
    ∃ w, run (step twoJobs) (.start twoSections) [false, true, false, true, false, true] = some w ∧
      (∀ i, w.phase i = .written) ∧ w.file = bytes "[A]\nk = 1\n[B]\nn = 3\n" ∧
      ¬ Kept twoJobs w.file := by
  have hrun : ((run (step twoJobs) (.start twoSections) [false, true, false, true, false, true]).map
      fun w => (w.file, w.phase false, w.phase true)) =
        some (bytes "[A]\nk = 1\n[B]\nn = 3\n", .written, .written) := by decide +kernel
  obtain ⟨w, hw, he⟩ := Option.map_eq_some_iff.mp hrun
  obtain ⟨hf, he⟩ := Prod.mk.inj he
  obtain ⟨h₁, h₂⟩ := Prod.mk.inj he
  refine ⟨w, hw, fun i => by cases i <;> assumption, hf, ?_⟩
  rw [hf, Kept, if_neg (by decide +kernel)]
  rintro ⟨⟨content, hc, hall⟩, -⟩
  rw [fromUtf8_bytes, Option.some.injEq] at hc
  subst hc
  exact absurd (hall ("k", "2") (List.mem_singleton.mpr rfl)) (by decide +kernel)

end Saltnitor.Tuner
