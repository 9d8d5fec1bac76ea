import Saltnitor.Tuner.RouterIni

/-!
# The frame of an upsert

`UpsertSpec` says line by line what an upsert may do to a text: what is before the
section's first header and behind the section's end stays, in the section the first
line of every written key is replaced where it is, and the keys without a line are
added at the end. `upsertIniSection_spec` holds for every text, section and list of
distinct keys. `settled_iff` is when the section then has one line for every written
key, so that nothing is left to change: no written key was there more than once, and
none has a line feed in it.
-/

namespace Saltnitor.Tuner

open Rust

/-! ## What a line assigns -/

/-- `;` or `#` behind the white space. -/
def isComment (line : Str) : Bool :=
  let trimmed := line.dropWhile isWhitespace
  trimmed.head? == some ';' || trimmed.head? == some '#'

/-- The text before the first `=`, the whole line if there is none. -/
def keyText (line : Str) : Str := trim (line.takeWhile (· != '='))

/-- A line that is no comment and whose key is the one given. -/
def assignsOrBlank (key line : Str) : Bool := !isComment line && keyText line == key

/-- The same for a key that is not empty. -/
def assigns (key line : Str) : Bool := assignsOrBlank key line && !key.isEmpty

theorem keyText_eq (line : Str) :
    trim ((line.dropWhile isWhitespace).takeWhile (· != '=')) = keyText line := by
  rw [keyText]
  induction line with
  | nil => rfl
  | cons c line ih =>
    by_cases hw : isWhitespace c = true
    · have hc : (c != '=') = true := by
        rw [bne_iff_ne]
        rintro rfl
        exact absurd hw (by decide)
      rw [List.dropWhile_cons_of_pos hw, ih, List.takeWhile_cons_of_pos (p := (· != '=')) hc,
        trim_cons hw]
    · rw [List.dropWhile_cons_of_neg hw]

theorem lineKey_eq_some {key line : Str} : lineKey line = some key ↔ assigns key line = true := by
  simp only [lineKey, keyText_eq, Option.ite_none_left_eq_some, not_or, Option.some.injEq, assigns,
    assignsOrBlank, isComment, Bool.and_eq_true, Bool.not_eq_true', Bool.or_eq_false_iff,
    beq_eq_false_iff_ne, beq_iff_eq, List.isEmpty_eq_false_iff, ne_eq]
  constructor
  · rintro ⟨⟨h₁, h₂, h₃⟩, rfl⟩
    exact ⟨⟨⟨h₁, h₂⟩, rfl⟩, h₃⟩
  · rintro ⟨⟨⟨h₁, h₂⟩, rfl⟩, h₃⟩
    exact ⟨⟨h₁, h₂, h₃⟩, rfl⟩

/-! ## The specification -/

section Spec

variable (assigns : Str → Str → Bool)

/-- Line `i` is the block's first that assigns the key. -/
def FirstAt (key : Str) (block : List Str) (i : Nat) : Prop :=
  (∃ l, block[i]? = some l ∧ assigns key l = true) ∧
    ∀ j < i, ∀ l, block[j]? = some l → assigns key l = false

/-- Every line is where it was, and only the first line of a written key is another one. -/
structure InPlace (kv : List (Str × Str)) (block block' : List Str) : Prop where
  length : block'.length = block.length
  replaced : ∀ p ∈ kv, ∀ i, FirstAt assigns p.1 block i → block'[i]? = some (setting p)
  kept : ∀ i, (∀ p ∈ kv, ¬ FirstAt assigns p.1 block i) → block'[i]? = block[i]?

/-- The written keys without a line. -/
def unassigned (kv : List (Str × Str)) (block : List Str) : List (Str × Str) :=
  kv.filter fun p => block.all fun l => !assigns p.1 l

/-- What the text becomes; `none` stands for a section that is not found. -/
def UpsertSpec (content section_ : Str) (kv : List (Str × Str)) (out : Option Str) : Prop :=
  (out = none ↔ ∀ l ∈ lines content, trim l ≠ sectionHeader section_) ∧
    ∀ text, out = some text → ∃ (p : IniParts) (block' : List Str),
      lines content = p.before ++ p.header :: (p.block ++ p.rest) ∧ p.Cut section_ ∧
      InPlace assigns kv p.block block' ∧
      text = joinLines (p.before ++ p.header ::
        (block' ++ (unassigned assigns kv p.block).map setting ++ p.rest))

end Spec

section First

variable {key line : Str} {ls : List Str} {i : Nat}

theorem firstAt_zero : FirstAt assigns key (line :: ls) 0 ↔ assigns key line = true := by
  constructor
  · rintro ⟨⟨l, hl, h⟩, -⟩
    cases hl
    exact h
  · exact fun h => ⟨⟨line, rfl, h⟩, fun j hj => absurd hj (Nat.not_lt_zero j)⟩

theorem firstAt_succ : FirstAt assigns key (line :: ls) (i + 1) ↔
    assigns key line = false ∧ FirstAt assigns key ls i := by
  constructor
  · rintro ⟨h, hb⟩
    exact ⟨hb 0 (Nat.succ_pos i) line rfl, h, fun j hj l hl => hb (j + 1) (by omega) l hl⟩
  · rintro ⟨hline, h, hb⟩
    refine ⟨h, fun j hj l hl => ?_⟩
    cases j with
    | zero => cases hl; exact hline
    | succ j => exact hb j (by omega) l hl

end First

section Line

variable {kv : List (Str × Str)} {p : Str × Str} {line : Str} {ls block' : List Str}

theorem InPlace.replace (hn : (kv.map (·.1)).Nodup) (hp : p ∈ kv)
    (hline : ∀ key, assigns key line = true ↔ p.1 = key)
    (h : InPlace assigns (kv.filter fun q => q.1 != p.1) ls block') :
    InPlace assigns kv (line :: ls) (setting p :: block') where
  length := by simp [h.length]
  replaced q hq i hi := by
    cases i with
    | zero =>
      have hqp := (hline q.1).mp (firstAt_zero.mp hi)
      rw [List.inj_on_of_nodup_map hn hp hq hqp]
      rfl
    | succ i =>
      obtain ⟨hne, hi⟩ := firstAt_succ.mp hi
      have hne : q.1 ≠ p.1 := fun he => Bool.false_ne_true (hne.symm.trans ((hline _).mpr he.symm))
      exact h.replaced q (List.mem_filter.mpr ⟨hq, bne_iff_ne.mpr hne⟩) i hi
  kept i hi := by
    cases i with
    | zero => exact absurd (firstAt_zero.mpr ((hline p.1).mpr rfl)) (hi p hp)
    | succ i =>
      refine h.kept i fun q hq hfirst => ?_
      obtain ⟨hq, hne⟩ := List.mem_filter.mp hq
      have hq' : assigns q.1 line = false := by
        rw [← Bool.not_eq_true, hline]
        exact (bne_iff_ne.mp hne).symm
      exact hi q hq (firstAt_succ.mpr ⟨hq', hfirst⟩)

theorem unassigned_replace (hline : ∀ key, assigns key line = true ↔ p.1 = key) :
    unassigned assigns (kv.filter fun q => q.1 != p.1) ls =
      unassigned assigns kv (line :: ls) := by
  rw [unassigned, unassigned, List.filter_filter]
  refine List.filter_congr fun q _ => ?_
  rw [List.all_cons, Bool.and_comm]
  congr 1
  rw [Bool.eq_iff_iff, bne_iff_ne, Bool.not_eq_true', ← Bool.not_eq_true, hline]
  exact not_congr eq_comm

theorem InPlace.keep (hline : ∀ q ∈ kv, assigns q.1 line = false)
    (h : InPlace assigns kv ls block') : InPlace assigns kv (line :: ls) (line :: block') where
  length := by simp [h.length]
  replaced q hq i hi := by
    cases i with
    | zero => exact absurd (firstAt_zero.mp hi) (by simp [hline q hq])
    | succ i => exact h.replaced q hq i (firstAt_succ.mp hi).2
  kept i hi := by
    cases i with
    | zero => rfl
    | succ i => exact h.kept i fun q hq hf => hi q hq (firstAt_succ.mpr ⟨hline q hq, hf⟩)

theorem unassigned_keep (hline : ∀ q ∈ kv, assigns q.1 line = false) :
    unassigned assigns kv (line :: ls) = unassigned assigns kv ls :=
  List.filter_congr fun q hq => by rw [List.all_cons, hline q hq]; rfl

end Line

theorem upsertLines_spec {kv : List (Str × Str)} (hn : (kv.map (·.1)).Nodup) (block : List Str) :
    ∃ block', InPlace assigns kv block block' ∧
      upsertLines kv block = block' ++ (unassigned assigns kv block).map setting := by
  induction block generalizing kv with
  | nil =>
    refine ⟨[], ⟨rfl, ?_, fun i _ => rfl⟩, by simp [upsertLines, unassigned]⟩
    rintro p - i ⟨⟨l, hl, -⟩, -⟩
    cases hl
  | cons line ls ih =>
    rw [upsertLines]
    split
    · rename_i p hp
      obtain ⟨k, hk, hf⟩ := Option.bind_eq_some_iff.mp hp
      have hpk : p.1 = k := by simpa using List.find?_some hf
      subst hpk
      -- the line's key is the only one it assigns
      have hline (key : Str) : assigns key line = true ↔ p.1 = key := by
        rw [← lineKey_eq_some, hk, Option.some.injEq]
      have hrest : (kv.eraseP fun q => q.1 == p.1) = kv.filter fun q => q.1 != p.1 :=
        eraseP_eq_filter hn p.1
      obtain ⟨block', hin, hout⟩ := ih (hn.sublist (List.filter_sublist.map _))
      refine ⟨setting p :: block', hin.replace hn (List.mem_of_find?_eq_some hf) hline, ?_⟩
      rw [hrest, hout, unassigned_replace hline, List.cons_append]
    · rename_i hnone
      have hline (q : Str × Str) (hq : q ∈ kv) : assigns q.1 line = false := by
        rw [← Bool.not_eq_true, ← lineKey_eq_some]
        intro hk
        rw [hk, Option.bind_some, List.find?_eq_none] at hnone
        exact hnone q hq (by simp)
      obtain ⟨block', hin, hout⟩ := ih hn
      refine ⟨line :: block', hin.keep hline, ?_⟩
      rw [hout, unassigned_keep hline, List.cons_append]

/-- **The frame of an upsert.** -/
theorem upsertIniSection_spec (content section_ : Str) {kv : List (Str × Str)}
    (hn : (kv.map (·.1)).Nodup) :
    UpsertSpec assigns content section_ kv (upsertIniSection content section_ kv) := by
  constructor
  · rw [upsertIniSection, Option.map_eq_none_iff, splitSection]
    cases hd : (lines content).dropWhile fun l => trim l != sectionHeader section_ with
    | nil => simpa using List.dropWhile_eq_nil_iff.mp hd
    | cons header after =>
      refine iff_of_false (fun h => nomatch h) fun hall => ?_
      have hnil : ((lines content).dropWhile fun l => trim l != sectionHeader section_) = [] :=
        List.dropWhile_eq_nil_iff.mpr fun l hl => by simpa using hall l hl
      rw [hnil] at hd
      cases hd
  · intro text h
    obtain ⟨p, hp, rfl⟩ := Option.map_eq_some_iff.mp h
    obtain ⟨hls, hcut⟩ := splitSection_eq_some hp
    obtain ⟨block', hin, hout⟩ := upsertLines_spec hn p.block
    exact ⟨p, block', hls, hcut, hin, by rw [hout]⟩

theorem upsertIniSection_spec_two :
    UpsertSpec assigns "[A]\nk=1\n\n[B]" "A" [("n", "9"), ("k", "2")]
      (upsertIniSection "[A]\nk=1\n\n[B]" "A" [("n", "9"), ("k", "2")]) :=
  upsertIniSection_spec "[A]\nk=1\n\n[B]" "A" (by decide +kernel)

/-- A blank line does not stand for the empty key. -/
theorem not_upsertSpec_assignsOrBlank :
    ¬ UpsertSpec assignsOrBlank "[A]\n\n" "A" [("", "v")]
      (upsertIniSection "[A]\n\n" "A" [("", "v")]) := by
  have hcode : upsertIniSection "[A]\n\n" "A" [("", "v")] = some ("[A]\n\n = v\n" : Str) := by
    decide +kernel
  have hlines : lines "[A]\n\n" = [("[A]" : Str), []] := by decide +kernel
  have hcut₀ : (IniParts.mk [] "[A]" [[]] []).Cut "A" :=
    ⟨(fun _ hl => nomatch hl), by decide +kernel, by decide +kernel, (fun _ hl => nomatch hl)⟩
  rw [hcode]
  rintro ⟨-, h⟩
  obtain ⟨p, block', hls, hcut, hin, htext⟩ := h _ rfl
  have hsplit := splitSection_of_cut hcut
  rw [← hls, hlines] at hsplit
  cases hsplit.symm.trans (splitSection_of_cut hcut₀)
  have hfirst : FirstAt assignsOrBlank [] [[]] 0 :=
    ⟨⟨[], rfl, by decide +kernel⟩, fun j hj => absurd hj (Nat.not_lt_zero j)⟩
  have hline := hin.replaced ([], "v") (List.mem_singleton.mpr rfl) 0 hfirst
  have hun : unassigned assignsOrBlank [("", "v")] [[]] = [] := by decide +kernel
  obtain ⟨l, rfl⟩ := List.length_eq_one_iff.mp hin.length
  cases hline
  rw [hun] at htext
  exact absurd htext (by decide +kernel)

/-! ## Upserting again -/

/-- Distinct keys that a line can carry, and values that end no line. -/
structure LineSettings (kv : List (Str × Str)) : Prop extends IniSettings kv where
  value : ∀ p ∈ kv, '\n' ∉ p.2 ∧ '\r' ∉ p.2

/-- The section has exactly one line for every written key, the new one, so that all readers agree
on it, and writing again writes the lines that are there. -/
structure Settled (section_ : Str) (kv : List (Str × Str)) (out : Str) : Prop where
  one : ∃ p, splitSection section_ (lines out) = some p ∧
    ∀ q ∈ kv, assigning q.1 p.block = [setting q]
  read : ∀ R : IniReader, ∀ q ∈ kv, R.effective out section_ q.1 = some (trim q.2)
  again : upsertIniSection out section_ kv = some (joinLines (lines out))

section Again

variable {kv : List (Str × Str)} {q : Str × Str} {section_ content out : Str}

theorem LineSettings.newline (h : LineSettings kv) (hk : ∀ p ∈ kv, '\n' ∉ p.1) :
    ∀ p ∈ kv, '\n' ∉ setting p := by
  intro p hp
  rw [setting, List.mem_append, List.mem_append, not_or, not_or]
  exact ⟨⟨hk p hp, by decide⟩, (h.value p hp).1⟩

theorem lineValue_setting_eq_trim (h : IniKey q.1) : lineValue (setting q) = trim q.2 := by
  rw [lineValue, dropWhile_setting h, List.drop_one, List.tail_cons, trim_cons (by decide)]

theorem chompCr_setting (h : '\r' ∉ q.2) : chompCr (setting q) = setting q := by
  refine if_neg fun hr => ?_
  rw [setting, List.getLast?_append] at hr
  cases hv : q.2.getLast? with
  | none =>
    have hsep : (" = " : Str).getLast? = some ' ' := by decide
    rw [hv, Option.none_or, List.getLast?_append, hsep, Option.some_or, Option.some.injEq] at hr
    exact absurd hr (by decide)
  | some c =>
    rw [hv, Option.some_or, Option.some.injEq] at hr
    exact h (hr ▸ List.mem_of_getLast? hv)

/-- A block whose lines for the written keys are the new ones is written as it is. -/
theorem upsertLines_eq_self (h : IniSettings kv) {block : List Str}
    (hone : ∀ q ∈ kv, assigning q.1 block = [setting q]) : upsertLines kv block = block := by
  obtain ⟨block', hin, hout⟩ := upsertLines_spec h.nodup block
  have hmem {q : Str × Str} (hq : q ∈ kv) {l : Str} (hl : l ∈ block)
      (ha : assigns q.1 l = true) : l = setting q := by
    have : l ∈ assigning q.1 block :=
      List.mem_filter.mpr ⟨hl, by simpa using lineKey_eq_some.mpr ha⟩
    rw [hone q hq] at this
    exact List.mem_singleton.mp this
  have hun : unassigned assigns kv block = [] := by
    rw [unassigned, List.filter_eq_nil_iff]
    intro q hq hall
    have hl : setting q ∈ assigning q.1 block := by rw [hone q hq]; exact List.mem_singleton.mpr rfl
    have hnot := List.all_eq_true.mp hall _ (List.mem_of_mem_filter hl)
    rw [lineKey_eq_some.mp (lineKey_setting (h.keys q hq))] at hnot
    cases hnot
  have hblock : block' = block := by
    refine List.ext_getElem? fun i => ?_
    by_cases hfirst : ∃ q ∈ kv, FirstAt assigns q.1 block i
    · obtain ⟨q, hq, hf⟩ := hfirst
      obtain ⟨l, hl, ha⟩ := hf.1
      rw [hin.replaced q hq i hf, hl, hmem hq (List.mem_of_getElem? hl) ha]
    · exact hin.kept i fun q hq hf => hfirst ⟨q, hq, hf⟩
  rw [hout, hun, hblock, List.map_nil, List.append_nil]

theorem assigning_upsert (h : LineSettings kv) (hk : ∀ p ∈ kv, '\n' ∉ p.1)
    (hout : upsertIniSection content section_ kv = some out) :
    ∃ p p', splitSection section_ (lines content) = some p ∧
      splitSection section_ (lines out) = some p' ∧
      ∀ q ∈ kv, assigning q.1 p'.block = setting q :: (assigning q.1 p.block).tail.map chompCr := by
  obtain ⟨p, hp, hp'⟩ := splitSection_upsert h.toIniSettings (h.newline hk) hout
  refine ⟨p, _, hp, hp', fun q hq => ?_⟩
  have hentry := (entry_eq_some h.nodup).mpr ⟨hq, rfl⟩
  rw [IniParts.chompCr, assigning_map_chompCr, assigning_upsertLines h.toIniSettings, hentry]
  dsimp only
  rw [List.map_cons, chompCr_setting (h.value q hq).2]

/-- **After an upsert the section is settled if and only if no written key was there more than once
and none has a line feed in it.** -/
theorem settled_iff (h : LineSettings kv)
    (hout : upsertIniSection content section_ kv = some out) :
    Settled section_ kv out ↔
      ∀ q ∈ kv, '\n' ∉ q.1 ∧ (assignedIn content section_ q.1).length ≤ 1 := by
  have hassigned {content : Str} {p : IniParts}
      (hp : splitSection section_ (lines content) = some p) (key : Str) :
      assignedIn content section_ key = (assigning key p.block).map lineValue := by
    rw [assignedIn, hp]
    exact assigned_eq key p.block
  constructor
  · intro hs
    obtain ⟨p₀, hp₀, hone⟩ := hs.one
    -- the line of a key with a line feed would be two lines
    have hk : ∀ q ∈ kv, '\n' ∉ q.1 := by
      intro q hq hn
      have hl : setting q ∈ p₀.block :=
        List.mem_of_mem_filter (by rw [← assigning, hone q hq]; exact List.mem_singleton.mpr rfl)
      have hline : setting q ∈ lines out := by
        rw [(splitSection_eq_some hp₀).1]
        simp [hl]
      exact not_mem_of_mem_lines hline (by rw [setting]; simp [hn])
    obtain ⟨p, p', hp, hp', hall⟩ := assigning_upsert h hk hout
    cases hp₀.symm.trans hp'
    intro q hq
    refine ⟨hk q hq, ?_⟩
    have hlen := congrArg List.length ((hone q hq).symm.trans (hall q hq))
    rw [hassigned hp, List.length_map]
    simp only [List.length_cons, List.length_map, List.length_tail, List.length_nil] at hlen
    omega
  · intro hq
    obtain ⟨p, p', hp, hp', hall⟩ := assigning_upsert h (fun q hm => (hq q hm).1) hout
    have hone (q : Str × Str) (hm : q ∈ kv) : assigning q.1 p'.block = [setting q] := by
      have hlen := (hq q hm).2
      rw [hassigned hp, List.length_map] at hlen
      have htail : (assigning q.1 p.block).tail = [] := by
        rw [← List.length_eq_zero_iff, List.length_tail]
        omega
      rw [hall q hm, htail, List.map_nil]
    refine ⟨⟨p', hp', hone⟩, fun R q hm => ?_, ?_⟩
    · rw [IniReader.effective, hassigned hp', hone q hm, List.map_singleton,
        lineValue_setting_eq_trim (h.keys q hm), R.pick_single]
    · rw [upsertIniSection, hp', Option.map_some, upsertLines_eq_self h.toIniSettings hone,
        ← (splitSection_eq_some hp').1]

end Again

theorem settled_iff_one :
    Settled "A" [("k", "3")] ("[A]\nk = 3\n" : Str) ↔
      ∀ q ∈ [(("k" : Str), ("3" : Str))],
        '\n' ∉ q.1 ∧ (assignedIn "[A]\nk=1\n" "A" q.1).length ≤ 1 := by
  have hkey : IniKey ("k" : Str) := PlainKey.ini (by decide +kernel)
  exact settled_iff ⟨⟨List.forall_mem_singleton.mpr hkey, by decide +kernel⟩, by decide +kernel⟩
    (by decide +kernel)

/-- A key that is there twice is there twice with two values. -/
theorem not_settled_repeated :
    upsertIniSection "[A]\nk = 1\nk = 2\n" "A" [("k", "3")] = some ("[A]\nk = 3\nk = 2\n" : Str) ∧
      ¬ Settled "A" [("k", "3")] ("[A]\nk = 3\nk = 2\n" : Str) := by
  refine ⟨by decide +kernel, fun h => ?_⟩
  have hlast := h.read .last ("k", "3") (List.mem_singleton.mpr rfl)
  exact absurd hlast (by decide +kernel)

end Saltnitor.Tuner
