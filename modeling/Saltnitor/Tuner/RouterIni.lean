import Mathlib.Data.List.Nodup
import Saltnitor.Rust.Text

/-!
# The router's preset file

`upsertIniSection` writes settings into one `[section]` of an INI text: the
first line of a key is replaced, a key without one is appended, everything else
stays. `assignedIn` lists what the section assigns to a key, and
`assignedIn_upsert` is what a write does to that list: a written key gets the new
value in place of its first one, an unwritten key keeps all of its own.
-/

namespace Saltnitor.Tuner

open Rust

/-! ## The code -/

/-- The first line of any section. -/
def isSectionLine (l : Str) : Bool :=
  (trim l).head? == some '[' && (trim l).getLast? == some ']'

def sectionHeader (section_ : Str) : Str := '[' :: (section_ ++ [']'])

/-- The key a line sets; `none` for a comment and for a line without a key. -/
def lineKey (line : Str) : Option Str :=
  let trimmed := line.dropWhile isWhitespace
  let key := trim (trimmed.takeWhile (· != '='))
  if trimmed.head? = some ';' ∨ trimmed.head? = some '#' ∨ key = [] then none else some key

/-- `k = v` -/
def setting (kv : Str × Str) : Str := kv.1 ++ (" = " : Str) ++ kv.2

/-- Replace the lines of the remaining keys and append the keys that have none. -/
def upsertLines : List (Str × Str) → List Str → List Str
  | remaining, [] => remaining.map setting
  | remaining, line :: ls =>
    match (lineKey line).bind fun key => remaining.find? fun kv => kv.1 == key with
    | some kv => setting kv :: upsertLines (remaining.eraseP fun p => p.1 == kv.1) ls
    | none => line :: upsertLines remaining ls

/-- A text cut at a section: what is before it, its first line, its block and the rest. -/
structure IniParts where
  before : List Str
  header : Str
  block : List Str
  rest : List Str

def splitSection (section_ : Str) (ls : List Str) : Option IniParts :=
  match ls.dropWhile fun l => trim l != sectionHeader section_ with
  | [] => none
  | header :: after => some {
      before := ls.takeWhile fun l => trim l != sectionHeader section_
      header := header
      block := after.takeWhile fun l => !isSectionLine l
      rest := after.dropWhile fun l => !isSectionLine l }

/-- Every line with a line feed behind it. -/
def joinLines (ls : List Str) : Str := ls.flatMap (· ++ ['\n'])

def upsertIniSection (content section_ : Str) (kv : List (Str × Str)) : Option Str :=
  (splitSection section_ (lines content)).map fun p =>
    joinLines (p.before ++ p.header :: (upsertLines kv p.block ++ p.rest))

example : upsertIniSection "[A]\nmodel = x\nk=1\n; k = 2\n[B]\nk = 1" "A" [("k", "7"), ("n", "9")] =
    some ("[A]\nmodel = x\nk = 7\n; k = 2\nn = 9\n[B]\nk = 1\n" : Str) := by decide +kernel

/-! ## What a section assigns -/

/-- The value a line sets its key to. -/
def lineValue (line : Str) : Str := trim ((line.dropWhile (· != '=')).drop 1)

/-- The values a block sets a key to, in order. -/
def assigned (key : Str) (block : List Str) : List Str :=
  block.filterMap fun l => if lineKey l = some key then some (lineValue l) else none

def assignedIn (content section_ key : Str) : List Str :=
  match splitSection section_ (lines content) with
  | some p => assigned key p.block
  | none => []

/-- How the router reads a key it finds several times: the file's format leaves that open. -/
structure IniReader where
  pick : List Str → Option Str
  pick_eq_none : ∀ vs, pick vs = none ↔ vs = []
  pick_single : ∀ v, pick [v] = some v

def IniReader.first : IniReader := ⟨List.head?, fun _ => List.head?_eq_none_iff, fun _ => rfl⟩

def IniReader.last : IniReader := ⟨List.getLast?, fun _ => List.getLast?_eq_none_iff, fun _ => rfl⟩

/-- What the router sees for a key of the section. -/
def IniReader.effective (R : IniReader) (content section_ key : Str) : Option Str :=
  R.pick (assignedIn content section_ key)

/-! ## Lines -/

/-- A key that a line can carry. -/
structure IniKey (k : Str) : Prop where
  trimmed : trim k = k
  ne_nil : k ≠ []
  no_eq : '=' ∉ k
  head : k.head? ≠ some ';' ∧ k.head? ≠ some '#' ∧ k.head? ≠ some '['

/-- A key that is read back as itself. -/
def PlainKey (k : Str) : Prop :=
  k ≠ [] ∧ (∀ c ∈ k, c ≠ '=' ∧ isWhitespace c = false) ∧
    k.head? ≠ some ';' ∧ k.head? ≠ some '#' ∧ k.head? ≠ some '['

instance (k : Str) : Decidable (PlainKey k) := inferInstanceAs (Decidable (_ ∧ _))

theorem PlainKey.ini {k : Str} (h : PlainKey k) : IniKey k where
  trimmed := trim_eq_self fun c hc => (h.2.1 c hc).2
  ne_nil := h.1
  no_eq hc := (h.2.1 _ hc).1 rfl
  head := h.2.2

/-- A key and a value that a line can carry. -/
structure PlainSetting (kv : Str × Str) : Prop where
  key : PlainKey kv.1
  value : ∀ c ∈ kv.2, isWhitespace c = false

section Lines

variable {kv : Str × Str} {l : Str}

theorem head?_setting (h : IniKey kv.1) : (setting kv).head? = kv.1.head? := by
  rw [setting, List.append_assoc, List.head?_append_of_ne_nil _ h.ne_nil]

theorem IniKey.ne_eq {k : Str} (h : IniKey k) : ∀ c ∈ k, (c != '=') = true := by
  intro c hc
  rw [bne_iff_ne]
  rintro rfl
  exact h.no_eq hc

/-- The key's end is white space to be trimmed. -/
theorem takeWhile_setting (h : IniKey kv.1) :
    (setting kv).takeWhile (· != '=') = kv.1 ++ [' '] := by
  rw [setting, List.append_assoc, List.takeWhile_append_of_pos h.ne_eq]
  rfl

theorem dropWhile_setting (h : IniKey kv.1) :
    (setting kv).dropWhile (· != '=') = '=' :: ' ' :: kv.2 := by
  rw [setting, List.append_assoc, List.dropWhile_append_of_pos h.ne_eq]
  rfl

theorem trimStart_setting (h : IniKey kv.1) :
    (setting kv).dropWhile isWhitespace = setting kv := by
  refine dropWhile_eq_self fun c hc => ?_
  rw [head?_setting h] at hc
  exact head_of_trim_eq_self h.trimmed c hc

theorem lineKey_setting (h : IniKey kv.1) : lineKey (setting kv) = some kv.1 := by
  have hkey : trim (kv.1 ++ [' ']) = kv.1 := by rw [trim_concat (by decide), h.trimmed]
  simp only [lineKey, trimStart_setting h, takeWhile_setting h, hkey, head?_setting h]
  refine if_neg ?_
  rintro (hc | hc | hc)
  · exact h.head.1 hc
  · exact h.head.2.1 hc
  · exact h.ne_nil hc

theorem lineValue_setting (h : PlainSetting kv) : lineValue (setting kv) = kv.2 := by
  rw [lineValue, dropWhile_setting h.key.ini, List.drop_one, List.tail_cons, trim_cons (by decide),
    trim_eq_self h.value]

theorem not_isSectionLine_setting (h : IniKey kv.1) : isSectionLine (setting kv) = false := by
  have hhead : (trim (setting kv)).head? ≠ some '[' := by
    intro hc
    obtain ⟨c, s, he⟩ := List.exists_cons_of_ne_nil h.ne_nil
    have hset : setting kv = c :: (s ++ (" = " : Str) ++ kv.2) := by rw [setting, he]; rfl
    -- trimming keeps the first character, which is the key's
    have hpre : trim (setting kv) <+: setting kv := by
      rw [trim, trimMatches, trimStart_setting h]
      exact List.rdropWhile_prefix ..
    obtain ⟨t, ht⟩ := hpre
    cases htr : trim (setting kv) with
    | nil => rw [htr] at hc; cases hc
    | cons d u =>
      rw [htr] at hc ht
      cases hc
      rw [hset] at ht
      have hc : c = '[' := ((List.cons.inj ht).1).symm
      exact h.head.2.2 (by rw [he, hc]; rfl)
  simp [isSectionLine, hhead]

theorem newline_not_mem_setting (h : PlainSetting kv) : '\n' ∉ setting kv := by
  have hw : isWhitespace '\n' = true := by decide
  rw [setting, List.mem_append, List.mem_append, not_or, not_or]
  refine ⟨⟨fun hm => ?_, by decide⟩, fun hm => ?_⟩
  · have := (h.key.2.1 _ hm).2
    rw [hw] at this
    cases this
  · have := h.value _ hm
    rw [hw] at this
    cases this

theorem lineKey_chompCr (l : Str) : lineKey (chompCr l) = lineKey l := by
  rcases chompCr_eq_or l with h | h
  · rw [h]
  · generalize chompCr l = a at h
    subst h
    have hcr : isWhitespace '\r' = true := by decide
    by_cases hne : a.dropWhile isWhitespace = []
    · simp only [lineKey, dropWhile_concat hcr, hne, if_true]
    · have hk : trim ((a.dropWhile isWhitespace ++ ['\r']).takeWhile (· != '=')) =
          trim ((a.dropWhile isWhitespace).takeWhile (· != '=')) := by
        rw [List.takeWhile_append]
        split
        · rename_i hlen
          rw [List.takeWhile_cons_of_pos (by decide), List.takeWhile_nil, trim_concat hcr]
          rw [(List.takeWhile_prefix _).eq_of_length hlen]
        · rfl
      simp only [lineKey, dropWhile_concat hcr, if_neg hne, List.head?_append_of_ne_nil _ hne, hk]

theorem lineValue_chompCr (l : Str) : lineValue (chompCr l) = lineValue l := by
  rcases chompCr_eq_or l with h | h
  · rw [h]
  · generalize chompCr l = a at h
    subst h
    have hcr : isWhitespace '\r' = true := by decide
    simp only [lineValue, dropWhile_concat (p := (· != '=')) (by decide : ('\r' != '=') = true)]
    split
    · rename_i he
      rw [he]
    · rename_i hne
      obtain ⟨c, s, he⟩ := List.exists_cons_of_ne_nil hne
      rw [he, List.cons_append, List.drop_one, List.drop_one, List.tail_cons, List.tail_cons,
        trim_concat hcr]

theorem isSectionLine_chompCr (l : Str) : isSectionLine (chompCr l) = isSectionLine l := by
  rw [isSectionLine, trim_chompCr, isSectionLine]

/-- The lines of a block that set a key. -/
def assigning (key : Str) (block : List Str) : List Str :=
  block.filter fun l => lineKey l == some key

theorem assigned_eq (key : Str) (block : List Str) :
    assigned key block = (assigning key block).map lineValue := by
  rw [assigned, assigning]
  induction block with
  | nil => rfl
  | cons l ls ih =>
    rw [List.filterMap_cons, List.filter_cons, ih]
    by_cases h : lineKey l = some key <;> simp [h]

theorem assigning_cons_of_key {key line : Str} (h : lineKey line = some key) (ls : List Str) :
    assigning key (line :: ls) = line :: assigning key ls :=
  List.filter_cons_of_pos (by simpa using h)

theorem assigning_cons_of_ne {key line : Str} (h : lineKey line ≠ some key) (ls : List Str) :
    assigning key (line :: ls) = assigning key ls :=
  List.filter_cons_of_neg (by simpa using h)

theorem assigning_map_chompCr (key : Str) (block : List Str) :
    assigning key (block.map chompCr) = (assigning key block).map chompCr := by
  simp only [assigning, List.filter_map, Function.comp_def, lineKey_chompCr]

theorem assigned_map_chompCr (key : Str) (block : List Str) :
    assigned key (block.map chompCr) = assigned key block := by
  simp only [assigned, List.filterMap_map, Function.comp_def, lineKey_chompCr, lineValue_chompCr]

end Lines

/-! ## What a write does -/

section Write

variable {kv : List (Str × Str)} {key : Str}

/-- Distinct keys that a line can carry. -/
structure IniSettings (kv : List (Str × Str)) : Prop where
  keys : ∀ p ∈ kv, IniKey p.1
  nodup : (kv.map (·.1)).Nodup

theorem IniSettings.eraseP (h : IniSettings kv) (q : Str × Str → Bool) :
    IniSettings (kv.eraseP q) where
  keys p hp := h.keys p (List.mem_of_mem_eraseP hp)
  nodup := (h.nodup.sublist ((List.eraseP_sublist).map _))

/-- Distinct keys, each with a value that a line can carry. -/
structure PlainSettings (kv : List (Str × Str)) : Prop where
  plain : ∀ p ∈ kv, PlainSetting p
  nodup : (kv.map (·.1)).Nodup

theorem PlainSettings.ini (h : PlainSettings kv) : IniSettings kv where
  keys p hp := (h.plain p hp).key.ini
  nodup := h.nodup

theorem PlainSettings.newline (h : PlainSettings kv) : ∀ p ∈ kv, '\n' ∉ setting p :=
  fun p hp => newline_not_mem_setting (h.plain p hp)

/-- What is written for a key. -/
def entry (kv : List (Str × Str)) (key : Str) : Option (Str × Str) := kv.find? fun p => p.1 == key

/-- The new value of a key. -/
def newValue (kv : List (Str × Str)) (key : Str) : Option Str :=
  (kv.find? fun p => p.1 == key).map (·.2)

theorem newValue_eq_none : newValue kv key = none ↔ key ∉ kv.map (·.1) := by
  rw [newValue, Option.map_eq_none_iff, List.find?_eq_none, List.mem_map]
  constructor
  · rintro h ⟨p, hp, rfl⟩
    exact h p hp (by simp)
  · exact fun h p hp he => h ⟨p, hp, by simpa using he⟩

theorem entry_eq_some (hn : (kv.map (·.1)).Nodup) {p : Str × Str} :
    entry kv key = some p ↔ p ∈ kv ∧ p.1 = key := by
  constructor
  · intro h
    exact ⟨List.mem_of_find?_eq_some h, by simpa using List.find?_some h⟩
  · rintro ⟨hp, rfl⟩
    cases hq : entry kv p.1 with
    | none => simpa using List.find?_eq_none.mp hq p hp
    | some q =>
      have hk : q.1 = p.1 := by simpa using List.find?_some hq
      rw [List.inj_on_of_nodup_map hn (List.mem_of_find?_eq_some hq) hp hk]

theorem newValue_eq_some (hn : (kv.map (·.1)).Nodup) {v : Str} :
    newValue kv key = some v ↔ (key, v) ∈ kv := by
  rw [newValue, ← entry, Option.map_eq_some_iff]
  simp only [entry_eq_some hn]
  constructor
  · rintro ⟨p, ⟨hp, rfl⟩, rfl⟩
    exact hp
  · exact fun h => ⟨(key, v), ⟨h, rfl⟩, rfl⟩

theorem eraseP_eq_filter (hn : (kv.map (·.1)).Nodup) (k : Str) :
    kv.eraseP (fun p => p.1 == k) = kv.filter fun p => p.1 != k := by
  induction kv with
  | nil => rfl
  | cons p kv ih =>
    rw [List.map_cons, List.nodup_cons] at hn
    by_cases hk : p.1 = k
    · have hall : ∀ q ∈ kv, (q.1 != k) = true := fun q hq => by
        rw [bne_iff_ne]
        rintro rfl
        exact hn.1 (hk ▸ List.mem_map_of_mem hq)
      rw [List.eraseP_cons_of_pos (by simpa using hk), List.filter_cons_of_neg (by simpa using hk),
        List.filter_eq_self.mpr hall]
    · rw [List.eraseP_cons_of_neg (by simpa using hk), List.filter_cons_of_pos (by simpa using hk),
        ih hn.2]

theorem entry_eraseP_of_ne (hn : (kv.map (·.1)).Nodup) {k : Str} (hne : key ≠ k) :
    entry (kv.eraseP fun p => p.1 == k) key = entry kv key := by
  rw [eraseP_eq_filter hn, entry, List.find?_filter, entry]
  congr 1
  funext p
  by_cases hp : p.1 = key
  · simp [hp, hne]
  · simp [hp]

theorem entry_eraseP_self (hn : (kv.map (·.1)).Nodup) :
    entry (kv.eraseP fun p => p.1 == key) key = none := by
  rw [eraseP_eq_filter hn, entry, List.find?_eq_none]
  intro p hp
  simpa using (List.mem_filter.mp hp).2

theorem assigning_map_setting (h : IniSettings kv) :
    assigning key (kv.map setting) = ((entry kv key).map setting).toList := by
  induction kv with
  | nil => rfl
  | cons p kv ih =>
    have hp := h.keys p (List.mem_cons_self ..)
    have hn := h.nodup
    rw [List.map_cons, List.nodup_cons] at hn
    have ih := ih ⟨fun q hq => h.keys q (List.mem_cons_of_mem _ hq), hn.2⟩
    have hkey := lineKey_setting hp
    rw [List.map_cons]
    by_cases hk : p.1 = key
    · have hnone : entry kv key = none := by
        rw [entry, List.find?_eq_none]
        intro q hq he
        exact hn.1 (List.mem_map.mpr ⟨q, hq, by rw [hk]; simpa using he⟩)
      have hsome : entry (p :: kv) key = some p := List.find?_cons_of_pos (by simpa using hk)
      rw [assigning_cons_of_key (hk ▸ hkey), ih, hnone, hsome]
      rfl
    · have hne : lineKey (setting p) ≠ some key := by rw [hkey]; simpa using hk
      have hcons : entry (p :: kv) key = entry kv key := List.find?_cons_of_neg (by simpa using hk)
      rw [assigning_cons_of_ne hne, ih, hcons]

/-- A written key has its new line in place of the first one, an unwritten key its own lines. -/
theorem assigning_upsertLines (h : IniSettings kv) (block : List Str) :
    assigning key (upsertLines kv block) =
      match entry kv key with
      | some p => setting p :: (assigning key block).tail
      | none => assigning key block := by
  induction block generalizing kv with
  | nil =>
    rw [upsertLines, assigning_map_setting h]
    cases entry kv key <;> rfl
  | cons line ls ih =>
    rw [upsertLines]
    split
    · rename_i p hp
      obtain ⟨k, hk, hf⟩ := Option.bind_eq_some_iff.mp hp
      have hpk := List.find?_some hf
      rw [beq_iff_eq] at hpk
      subst hpk
      have hkey := lineKey_setting (h.keys p (List.mem_of_find?_eq_some hf))
      have ih := ih (h.eraseP fun q => q.1 == p.1)
      by_cases he : p.1 = key
      · subst he
        have hnew : entry kv p.1 = some p := hf
        rw [assigning_cons_of_key hkey, assigning_cons_of_key hk, ih, entry_eraseP_self h.nodup, hnew]
        rfl
      · have hne : some p.1 ≠ some key := by simpa using he
        rw [assigning_cons_of_ne (hkey ▸ hne), assigning_cons_of_ne (hk ▸ hne), ih,
          entry_eraseP_of_ne h.nodup (Ne.symm he)]
    · rename_i hnone
      have ih := ih h
      by_cases he : lineKey line = some key
      · have hnew : entry kv key = none := by
          rw [he, Option.bind_some] at hnone
          exact hnone
        rw [assigning_cons_of_key he, assigning_cons_of_key he, ih, hnew]
      · rw [assigning_cons_of_ne he, assigning_cons_of_ne he, ih]

/-- A written key has its new value in place of the first one, an unwritten key its own values. -/
theorem assigned_upsertLines (h : PlainSettings kv) (block : List Str) :
    assigned key (upsertLines kv block) =
      match newValue kv key with
      | some v => v :: (assigned key block).tail
      | none => assigned key block := by
  rw [assigned_eq, assigned_eq, assigning_upsertLines h.ini, newValue, ← entry]
  cases he : entry kv key with
  | none => rfl
  | some p =>
    have hp := h.plain p (List.mem_of_find?_eq_some he)
    dsimp only [Option.map_some]
    rw [List.map_cons, lineValue_setting hp, List.map_tail]

theorem mem_upsertLines {block : List Str} {l : Str} (h : l ∈ upsertLines kv block) :
    l ∈ block ∨ ∃ p ∈ kv, l = setting p := by
  induction block generalizing kv with
  | nil =>
    rw [upsertLines, List.mem_map] at h
    obtain ⟨p, hp, rfl⟩ := h
    exact .inr ⟨p, hp, rfl⟩
  | cons line ls ih =>
    rw [upsertLines] at h
    split at h
    · rename_i p hp
      obtain ⟨k, -, hf⟩ := Option.bind_eq_some_iff.mp hp
      rcases List.mem_cons.mp h with rfl | h
      · exact .inr ⟨p, List.mem_of_find?_eq_some hf, rfl⟩
      · rcases ih h with h | ⟨q, hq, rfl⟩
        · exact .inl (List.mem_cons_of_mem _ h)
        · exact .inr ⟨q, List.mem_of_mem_eraseP hq, rfl⟩
    · rcases List.mem_cons.mp h with rfl | h
      · exact .inl (List.mem_cons_self ..)
      · rcases ih h with h | h
        · exact .inl (List.mem_cons_of_mem _ h)
        · exact .inr h

end Write

/-! ## Reading back what was written -/

section ReadBack

variable {section_ : Str} {ls : List Str} {p : IniParts}

/-- What a cut text looks like. -/
structure IniParts.Cut (section_ : Str) (p : IniParts) : Prop where
  before : ∀ l ∈ p.before, trim l ≠ sectionHeader section_
  header : trim p.header = sectionHeader section_
  block : ∀ l ∈ p.block, isSectionLine l = false
  rest : ∀ l ∈ p.rest.head?, isSectionLine l = true

theorem splitSection_eq_some (h : splitSection section_ ls = some p) :
    ls = p.before ++ p.header :: (p.block ++ p.rest) ∧ p.Cut section_ := by
  unfold splitSection at h
  split at h
  · cases h
  · rename_i header after hd
    cases h
    refine ⟨?_, fun l hl => ?_, ?_, fun l hl => ?_, fun l hl => ?_⟩
    · rw [List.takeWhile_append_dropWhile, ← hd, List.takeWhile_append_dropWhile]
    · simpa using List.mem_takeWhile_imp hl
    · have := List.head?_dropWhile_not (fun l => trim l != sectionHeader section_) ls
      rw [hd] at this
      simpa using this
    · simpa using List.mem_takeWhile_imp hl
    · have := List.head?_dropWhile_not (fun l => !isSectionLine l) after
      rw [Option.mem_def.mp hl] at this
      simpa using this

theorem splitSection_of_cut (h : p.Cut section_) :
    splitSection section_ (p.before ++ p.header :: (p.block ++ p.rest)) = some p := by
  have hb : ∀ l ∈ p.before, (trim l != sectionHeader section_) = true := fun l hl => by
    simpa using h.before l hl
  have hh : ¬ (trim p.header != sectionHeader section_) = true := by simp [h.header]
  have hk : ∀ l ∈ p.block, (!isSectionLine l) = true := fun l hl => by simp [h.block l hl]
  have hr : p.rest.takeWhile (fun l => !isSectionLine l) = [] ∧
      p.rest.dropWhile (fun l => !isSectionLine l) = p.rest := by
    cases hrest : p.rest with
    | nil => exact ⟨rfl, rfl⟩
    | cons l rest =>
      have hl : ¬ (!isSectionLine l) = true := by simp [h.rest l (by rw [hrest]; rfl)]
      exact ⟨List.takeWhile_cons_of_neg hl, List.dropWhile_cons_of_neg hl⟩
  unfold splitSection
  rw [List.dropWhile_append_of_pos hb,
    List.dropWhile_cons_of_neg (p := fun l => trim l != sectionHeader section_) hh]
  dsimp only
  rw [List.takeWhile_append_of_pos hb,
    List.takeWhile_cons_of_neg (p := fun l => trim l != sectionHeader section_) hh,
    List.takeWhile_append_of_pos hk, List.dropWhile_append_of_pos hk, hr.1, hr.2,
    List.append_nil, List.append_nil]

/-- The parts with the carriage returns at their lines' ends cut off. -/
def IniParts.chompCr (p : IniParts) : IniParts where
  before := p.before.map Rust.chompCr
  header := Rust.chompCr p.header
  block := p.block.map Rust.chompCr
  rest := p.rest.map Rust.chompCr

theorem IniParts.Cut.chompCr (h : p.Cut section_) : p.chompCr.Cut section_ where
  before l hl := by
    obtain ⟨l', hl', rfl⟩ := List.mem_map.mp hl
    rw [trim_chompCr]
    exact h.before l' hl'
  header := (trim_chompCr _).trans h.header
  block l hl := by
    obtain ⟨l', hl', rfl⟩ := List.mem_map.mp hl
    rw [isSectionLine_chompCr]
    exact h.block l' hl'
  rest l hl := by
    have hl' : p.rest.head?.map Rust.chompCr = some l := by rw [← List.head?_map]; exact hl
    obtain ⟨l', hm, rfl⟩ := Option.map_eq_some_iff.mp hl'
    rw [isSectionLine_chompCr]
    exact h.rest l' hm

theorem lines_joinLines {ls : List Str} (hn : ∀ l ∈ ls, '\n' ∉ l) :
    lines (joinLines ls) = ls.map chompCr := by
  have hnil : lines [] = [] := by decide
  have hl := lines_flatMap [] hn
  rwa [List.append_nil, hnil, List.append_nil] at hl

/-- Lines that were joined are cut as they were. -/
theorem splitSection_lines_joinLines (h : p.Cut section_)
    (hn : ∀ l ∈ p.before ++ p.header :: (p.block ++ p.rest), '\n' ∉ l) :
    splitSection section_ (lines (joinLines (p.before ++ p.header :: (p.block ++ p.rest)))) =
      some p.chompCr := by
  rw [lines_joinLines hn, List.map_append, List.map_cons, List.map_append]
  exact splitSection_of_cut h.chompCr

section Upsert

variable {content content' : Str} {kv : List (Str × Str)}

theorem newline_not_mem_upsert (hset : ∀ p ∈ kv, '\n' ∉ setting p)
    (hls : lines content = p.before ++ p.header :: (p.block ++ p.rest)) :
    ∀ l ∈ p.before ++ p.header :: (upsertLines kv p.block ++ p.rest), '\n' ∉ l := by
  have hline (l : Str) (hl : l ∈ p.before ++ p.header :: (p.block ++ p.rest)) : '\n' ∉ l := by
    rw [← hls] at hl
    exact not_mem_of_mem_lines hl
  intro l hl
  rw [List.mem_append, List.mem_cons, List.mem_append] at hl
  rcases hl with hl | rfl | hl | hl
  · exact hline l (by simp [hl])
  · exact hline _ (by simp)
  · rcases mem_upsertLines hl with hl | ⟨q, hq, rfl⟩
    · exact hline l (by simp [hl])
    · exact hset q hq
  · exact hline l (by simp [hl])

theorem not_isSectionLine_upsert (hkv : IniSettings kv) {block : List Str}
    (h : ∀ l ∈ block, isSectionLine l = false) : ∀ l ∈ upsertLines kv block, isSectionLine l = false := by
  intro l hl
  rcases mem_upsertLines hl with hl | ⟨q, hq, rfl⟩
  · exact h l hl
  · exact not_isSectionLine_setting (hkv.keys q hq)

theorem splitSection_upsert (hkv : IniSettings kv) (hset : ∀ p ∈ kv, '\n' ∉ setting p)
    (h : upsertIniSection content section_ kv = some content') :
    ∃ p, splitSection section_ (lines content) = some p ∧
      splitSection section_ (lines content') =
        some (IniParts.mk p.before p.header (upsertLines kv p.block) p.rest).chompCr := by
  obtain ⟨p, hp, rfl⟩ := Option.map_eq_some_iff.mp h
  obtain ⟨hls, hcut⟩ := splitSection_eq_some hp
  have hcut' : (IniParts.mk p.before p.header (upsertLines kv p.block) p.rest).Cut section_ :=
    ⟨hcut.before, hcut.header, not_isSectionLine_upsert hkv hcut.block, hcut.rest⟩
  exact ⟨p, hp, splitSection_lines_joinLines hcut' (newline_not_mem_upsert hset hls)⟩

end Upsert

/-- **What a write does to a key.** -/
theorem assignedIn_upsert {content content' key : Str} {kv : List (Str × Str)}
    (hkv : PlainSettings kv) (h : upsertIniSection content section_ kv = some content') :
    assignedIn content' section_ key =
      match newValue kv key with
      | some v => v :: (assignedIn content section_ key).tail
      | none => assignedIn content section_ key := by
  obtain ⟨p, hp, hp'⟩ := splitSection_upsert hkv.ini hkv.newline h
  rw [assignedIn, assignedIn, hp, hp']
  exact (assigned_map_chompCr key _).trans (assigned_upsertLines hkv p.block)

/-- A text with nothing but the section's first line. -/
theorem exists_clean {content : Str} (h : (splitSection section_ (lines content)).isSome = true) :
    ∃ clean, (splitSection section_ (lines clean)).isSome = true ∧
      ∀ key, assignedIn clean section_ key = [] := by
  obtain ⟨p, hp⟩ := Option.isSome_iff_exists.mp h
  obtain ⟨hls, hcut⟩ := splitSection_eq_some hp
  have hcut' : (IniParts.mk [] p.header [] []).Cut section_ :=
    ⟨(fun _ hl => nomatch hl), hcut.header, (fun _ hl => nomatch hl), (fun _ hl => nomatch hl)⟩
  have hn : ∀ l ∈ [] ++ p.header :: ([] ++ []), '\n' ∉ l := by
    intro l hl
    rw [List.mem_singleton.mp hl]
    have hm : p.header ∈ lines content := by rw [hls]; simp
    exact not_mem_of_mem_lines hm
  have hs := splitSection_lines_joinLines hcut' hn
  refine ⟨_, by rw [hs]; rfl, fun key => ?_⟩
  rw [assignedIn, hs]
  rfl

end ReadBack

end Saltnitor.Tuner
