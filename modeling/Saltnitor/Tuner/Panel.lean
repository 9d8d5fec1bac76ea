import Saltnitor.App.Console
import Saltnitor.Tuner.RouterIni

/-!
# The tuner

The tuner's controls and the settings it writes. Every control is written in
both of its positions except two: `mlock` and `no-mmap` are written when they are
on and left alone when they are off. `lastApply_iff` says when the settings of
the last apply are nevertheless the ones the router sees.
-/

namespace Saltnitor.Tuner

open Rust

/-! ## The controls -/

/-- The tuner's pages; `ngl` and the API key toggle are kept in `App`. -/
structure Panel where
  page : Fin 3
  selected : Nat
  currentCtx : Int32
  currentThreads : Nat
  currentBatch : Int32
  currentParallel : Int32
  flashAttn : Bool
  mlock : Bool
  noMmap : Bool
  cacheKIdx : Fin 9
  cacheVIdx : Fin 9
  ropeBase : Int32
  ropeScale : Float32
  defragThold : Float32
  draftMax : Int32
  draftMin : Int32
  draftModelIdx : Nat
  threadsBatch : Nat
  ubatchSize : Int32
  contBatching : Bool
  ctxShift : Bool
  metrics : Bool

/-- As `App::new` starts it. -/
def Panel.new (cpuCoreCount : Nat) (defaultCtx : Int32) : Panel where
  page := 0
  selected := 0
  currentCtx := defaultCtx
  currentThreads := max (cpuCoreCount - 1) 1
  currentBatch := 512
  currentParallel := 1
  flashAttn := false
  mlock := false
  noMmap := false
  cacheKIdx := 0
  cacheVIdx := 0
  ropeBase := 10000
  ropeScale := 1
  defragThold := -1
  draftMax := 16
  draftMin := 5
  draftModelIdx := 0
  threadsBatch := cpuCoreCount
  ubatchSize := 128
  contBatching := true
  ctxShift := true
  metrics := false

/-- The next page's first row. -/
def Panel.nextPage (t : Panel) : Panel := { t with page := t.page + 1, selected := 0 }

/-- One step to the right or to the left, where there is room for it. -/
def nudge {α : Type} (right : Bool) (x : α) (roomRight roomLeft : Bool) (up down : α) : α :=
  if right && roomRight then up else if !right && roomLeft then down else x

/-- The index one step on, between 0 and 8. -/
def nudgeIdx (right : Bool) (i : Fin 9) : Fin 9 :=
  if h : right = true ∧ i.val < 8 then ⟨i.val + 1, by omega⟩
  else if right = false ∧ 0 < i.val then ⟨i.val - 1, by omega⟩
  else i

/-- `KeyCode::Left` and `KeyCode::Right`. -/
def adjust (right : Bool) (cpuCoreCount : Nat) (a : App) (t : Panel) : App × Panel :=
  match t.page, t.selected with
  | 0, 0 =>
    ({ a with
      currentNgl := nudge right a.currentNgl (a.currentNgl < 99) (0 < a.currentNgl)
        (a.currentNgl + 1) (a.currentNgl - 1) }, t)
  | 0, 1 =>
    (a, { t with
      currentCtx := nudge right t.currentCtx (t.currentCtx < 131072) (1024 < t.currentCtx)
        (t.currentCtx + 1024) (t.currentCtx - 1024) })
  | 0, 2 =>
    (a, { t with
      currentThreads := nudge right t.currentThreads (t.currentThreads < cpuCoreCount) (1 < t.currentThreads)
        (t.currentThreads + 1) (t.currentThreads - 1) })
  | 0, 3 =>
    (a, { t with
      currentBatch := nudge right t.currentBatch (t.currentBatch < 8192) (128 < t.currentBatch)
        (t.currentBatch * 2) (t.currentBatch / 2) })
  | 0, 4 =>
    (a, { t with
      currentParallel := nudge right t.currentParallel (t.currentParallel < 16) (1 < t.currentParallel)
        (t.currentParallel + 1) (t.currentParallel - 1) })
  | 0, 5 => (a, { t with flashAttn := !t.flashAttn })
  | 0, 6 => (a, { t with mlock := !t.mlock })
  | 0, 7 => (a, { t with noMmap := !t.noMmap })
  | 0, 8 => (a, { t with cacheKIdx := nudgeIdx right t.cacheKIdx })
  | 0, 9 => (a, { t with cacheVIdx := nudgeIdx right t.cacheVIdx })
  | 1, 0 =>
    (a, { t with
      ropeBase := nudge right t.ropeBase true (10000 < t.ropeBase) (t.ropeBase + 10000) (t.ropeBase - 10000) })
  | 1, 1 =>
    (a, { t with
      ropeScale := nudge right t.ropeScale true (1 < t.ropeScale) (t.ropeScale + 0.5) (t.ropeScale - 0.5) })
  | 1, 2 =>
    (a, { t with
      defragThold := nudge right t.defragThold (t.defragThold < 1) (-1 < t.defragThold)
        (t.defragThold + 0.1) (t.defragThold - 0.1) })
  | 1, 3 =>
    (a, { t with
      draftMax := nudge right t.draftMax true (1 < t.draftMax) (t.draftMax + 1) (t.draftMax - 1) })
  | 1, 4 =>
    (a, { t with
      draftMin := nudge right t.draftMin true (1 < t.draftMin) (t.draftMin + 1) (t.draftMin - 1) })
  | 1, 5 =>
    (a, { t with
      draftModelIdx := nudge right t.draftModelIdx (t.draftModelIdx < a.availableModels.length)
        (0 < t.draftModelIdx) (t.draftModelIdx + 1) (t.draftModelIdx - 1) })
  | 2, 0 =>
    (a, { t with
      threadsBatch := nudge right t.threadsBatch (t.threadsBatch < cpuCoreCount) (1 < t.threadsBatch)
        (t.threadsBatch + 1) (t.threadsBatch - 1) })
  | 2, 1 =>
    (a, { t with
      ubatchSize := nudge right t.ubatchSize (t.ubatchSize < t.currentBatch) (32 < t.ubatchSize)
        (t.ubatchSize * 2) (t.ubatchSize / 2) })
  | 2, 2 => (a, { t with contBatching := !t.contBatching })
  | 2, 3 => (a, { t with ctxShift := !t.ctxShift })
  | 2, 4 => (a, { t with metrics := !t.metrics })
  | 2, 5 => ({ a with apiKey := !a.apiKey }, t)
  | _, _ => (a, t)

/-- The last row of a page. -/
def lastRow (page : Fin 3) : Nat := if page = 0 then 9 else 5

/-! ## What is written -/

def cacheTypes : List Str :=
  ["f16", "f32", "bf16", "q8_0", "q4_0", "q4_1", "iq4_nl", "q5_0", "q5_1"]

def cacheType (i : Fin 9) : Str := cacheTypes.getD i.val []

/-- Text without white space. -/
abbrev Word := {s : Str // ∀ c ∈ s, isWhitespace c = false}

def fmtBool (b : Bool) : Str := if b then "true" else "false"

/-- The keys that are always written. -/
def baseKeys : List Str :=
  ["ngl", "ctx-size", "batch-size", "ubatch-size", "threads", "threads-batch", "parallel",
    "flash-attn", "cache-type-k", "cache-type-v", "cont-batching", "rope-freq-base",
    "rope-freq-scale", "defrag-thold"]

/-- All the tuner's keys. -/
def tunerKeys : List Str := baseKeys ++ (["mlock", "no-mmap"] : List Str)

/-- A key that is only written when it is on. -/
def toggle (key : Str) (on : Bool) : List (Str × Str) := if on then [(key, "true")] else []

/-- The settings `Enter` writes; `fmtF32` is `Display` of a single-precision float. -/
def Panel.settings (t : Panel) (fmtF32 : Float32 → Word) (ngl : Int) : List (Str × Str) :=
  ([("ngl", fmtInt ngl),
    ("ctx-size", fmtInt t.currentCtx.toInt),
    ("batch-size", fmtInt t.currentBatch.toInt),
    ("ubatch-size", fmtInt t.ubatchSize.toInt),
    ("threads", toDec t.currentThreads),
    ("threads-batch", toDec t.threadsBatch),
    ("parallel", fmtInt t.currentParallel.toInt),
    ("flash-attn", if t.flashAttn then "on" else "off"),
    ("cache-type-k", cacheType t.cacheKIdx),
    ("cache-type-v", cacheType t.cacheVIdx),
    ("cont-batching", fmtBool t.contBatching),
    ("rope-freq-base", fmtInt t.ropeBase.toInt),
    ("rope-freq-scale", (fmtF32 t.ropeScale).1),
    ("defrag-thold", (fmtF32 t.defragThold).1)] : List (Str × Str)) ++
  (toggle "mlock" t.mlock ++ toggle "no-mmap" t.noMmap)

/-- Apply the tuner to a router file. -/
def Panel.apply (t : Panel) (fmtF32 : Float32 → Word) (ngl : Int) (content section_ : Str) :
    Option Str :=
  upsertIniSection content section_ (t.settings fmtF32 ngl)

/-! ## The settings can be read back -/

variable {fmtF32 : Float32 → Word} {t : Panel} {ngl : Int} {key : Str}

theorem toDec_not_whitespace {n : Nat} : ∀ c ∈ toDec n, isWhitespace c = false := by
  intro c hc
  have hd := isDigit_of_mem_toDec hc
  rw [Bool.eq_false_iff]
  intro hw
  simp only [Char.isDigit, Bool.and_eq_true, decide_eq_true_eq, UInt32.le_iff_toNat_le] at hd
  simp only [isWhitespace, Bool.or_eq_true, Bool.and_eq_true, decide_eq_true_eq, beq_iff_eq,
    Char.toNat] at hw
  have h48 : '0'.val.toNat = 48 := rfl
  have h57 : '9'.val.toNat = 57 := rfl
  omega

theorem fmtInt_not_whitespace {i : Int} : ∀ c ∈ fmtInt i, isWhitespace c = false := by
  unfold fmtInt
  split
  · intro c hc
    rcases List.mem_cons.mp hc with rfl | hc
    · decide
    · exact toDec_not_whitespace c hc
  · exact toDec_not_whitespace

theorem cacheType_not_whitespace : ∀ i : Fin 9, ∀ c ∈ cacheType i, isWhitespace c = false := by
  decide

theorem keys_settings : (t.settings fmtF32 ngl).map (·.1) =
    baseKeys ++ ((if t.mlock then [("mlock" : Str)] else []) ++
      if t.noMmap then [("no-mmap" : Str)] else []) := by
  cases hm : t.mlock <;> cases hn : t.noMmap <;> rw [Panel.settings, hm, hn] <;> rfl

theorem sublist_tuner_keys : ((t.settings fmtF32 ngl).map (·.1)).Sublist tunerKeys := by
  rw [keys_settings]
  refine (List.Sublist.refl _).append ?_
  have h : ∀ a b : Bool, ((if a then [("mlock" : Str)] else []) ++
      if b then [("no-mmap" : Str)] else []).Sublist ["mlock", "no-mmap"] := by decide
  exact h t.mlock t.noMmap

theorem values_settings : ∀ p ∈ t.settings fmtF32 ngl, ∀ c ∈ p.2, isWhitespace c = false := by
  have hbool : ∀ b : Bool, (∀ c ∈ fmtBool b, isWhitespace c = false) ∧
      ∀ c ∈ (if b then ("on" : Str) else "off"), isWhitespace c = false := by decide
  have htoggle (key : Str) (b : Bool) : ∀ p ∈ toggle key b, ∀ c ∈ p.2, isWhitespace c = false := by
    cases b with
    | false => exact fun p hp => nomatch hp
    | true =>
      intro p hp
      rw [List.mem_singleton.mp hp]
      exact (hbool true).1
  intro p hp
  rw [Panel.settings, List.mem_append, List.mem_append] at hp
  rcases hp with hp | hp | hp
  · simp only [List.mem_cons, List.not_mem_nil, or_false] at hp
    rcases hp with rfl | rfl | rfl | rfl | rfl | rfl | rfl | rfl | rfl | rfl | rfl | rfl | rfl | rfl
    all_goals first
      | exact fmtInt_not_whitespace
      | exact toDec_not_whitespace
      | exact cacheType_not_whitespace _
      | exact (hbool _).1
      | exact (hbool _).2
      | exact (fmtF32 _).2
  · exact htoggle _ _ p hp
  · exact htoggle _ _ p hp

theorem plainSettings : PlainSettings (t.settings fmtF32 ngl) where
  plain p hp := by
    have hkeys : ∀ k ∈ tunerKeys, PlainKey k := by decide
    exact ⟨hkeys _ (sublist_tuner_keys.subset (List.mem_map_of_mem hp)), values_settings p hp⟩
  nodup := by
    have : tunerKeys.Nodup := by decide
    exact this.sublist sublist_tuner_keys

theorem newValue_eq_none_iff (hk : key ∈ tunerKeys) :
    newValue (t.settings fmtF32 ngl) key = none ↔
      key = ("mlock" : Str) ∧ t.mlock = false ∨ key = ("no-mmap" : Str) ∧ t.noMmap = false := by
  rw [newValue_eq_none, keys_settings]
  have h : ∀ key ∈ tunerKeys, ∀ a b : Bool, key ∉ baseKeys ++ ((if a then [("mlock" : Str)]
      else []) ++ if b then [("no-mmap" : Str)] else []) ↔
      key = ("mlock" : Str) ∧ a = false ∨ key = ("no-mmap" : Str) ∧ b = false := by decide
  exact h key hk t.mlock t.noMmap

theorem newValue_mlock :
    newValue (t.settings fmtF32 ngl) "mlock" = none ↔ t.mlock = false := by
  rw [newValue_eq_none_iff (by decide), and_iff_right rfl,
    or_iff_left fun h => absurd h.1 (by decide)]

theorem newValue_noMmap :
    newValue (t.settings fmtF32 ngl) "no-mmap" = none ↔ t.noMmap = false := by
  rw [newValue_eq_none_iff (by decide), and_iff_right rfl,
    or_iff_right fun h => absurd h.1 (by decide)]

/-! ## Applying twice -/

section Twice

variable (fmtF32 : Float32 → Word) (R : IniReader) (content section_ : Str) (ngl₁ ngl₂ : Int) (t₁ t₂ : Panel)

/-- After applying `t₁` and then `t₂` the router sees what it sees after applying `t₂` alone to a
file whose section has none of the keys. -/
def LastApplyWins : Prop :=
  ∀ mid out, t₁.apply fmtF32 ngl₁ content section_ = some mid →
    t₂.apply fmtF32 ngl₂ mid section_ = some out →
    ∀ clean cleanOut, (∀ key ∈ tunerKeys, assignedIn clean section_ key = []) →
      t₂.apply fmtF32 ngl₂ clean section_ = some cleanOut →
      ∀ key ∈ tunerKeys, R.effective out section_ key = R.effective cleanOut section_ key

/-- A toggle that is off now was off before and is not in the file, and the reader takes the new
value of a written key over the repetitions the file has of it. -/
structure NothingLeft : Prop where
  mlock : t₂.mlock = false → t₁.mlock = false ∧ assignedIn content section_ "mlock" = []
  noMmap : t₂.noMmap = false → t₁.noMmap = false ∧ assignedIn content section_ "no-mmap" = []
  repeated : ∀ kv ∈ t₂.settings fmtF32 ngl₂,
    R.pick (kv.2 :: (assignedIn content section_ kv.1).tail) = some kv.2

/-- The file has the section. -/
def HasSection : Prop := (splitSection section_ (lines content)).isSome = true

instance : Decidable (HasSection content section_) := inferInstanceAs (Decidable (_ = _))

variable {fmtF32 R content section_ ngl₁ ngl₂ t₁ t₂}

variable (fmtF32) in
theorem HasSection.apply (h : HasSection content section_) (t : Panel) (ngl : Int) :
    ∃ out, t.apply fmtF32 ngl content section_ = some out ∧ HasSection out section_ := by
  obtain ⟨p, hp⟩ := Option.isSome_iff_exists.mp h
  obtain ⟨out, hout⟩ : ∃ out, t.apply fmtF32 ngl content section_ = some out :=
    ⟨_, by rw [Panel.apply, upsertIniSection, hp]; rfl⟩
  obtain ⟨q, -, hq⟩ := splitSection_upsert plainSettings.ini plainSettings.newline hout
  exact ⟨out, hout, by rw [HasSection, hq]; rfl⟩

/-- What the router sees after one apply to a clean section. -/
theorem effective_clean {clean out : Str} (hc : assignedIn clean section_ key = [])
    (h : t₂.apply fmtF32 ngl₂ clean section_ = some out) :
    R.effective out section_ key = newValue (t₂.settings fmtF32 ngl₂) key := by
  rw [IniReader.effective, assignedIn_upsert plainSettings h, hc]
  cases newValue (t₂.settings fmtF32 ngl₂) key with
  | none => exact (R.pick_eq_none _).mpr rfl
  | some v => exact R.pick_single v

theorem assignedIn_apply_apply {mid out : Str}
    (h₁ : t₁.apply fmtF32 ngl₁ content section_ = some mid)
    (h₂ : t₂.apply fmtF32 ngl₂ mid section_ = some out) :
    assignedIn out section_ key =
      match newValue (t₂.settings fmtF32 ngl₂) key, newValue (t₁.settings fmtF32 ngl₁) key with
      | some v, _ => v :: (assignedIn content section_ key).tail
      | none, some v => v :: (assignedIn content section_ key).tail
      | none, none => assignedIn content section_ key := by
  rw [assignedIn_upsert plainSettings h₂, assignedIn_upsert plainSettings h₁]
  cases newValue (t₂.settings fmtF32 ngl₂) key <;>
    cases newValue (t₁.settings fmtF32 ngl₁) key <;> rfl

/-- A key reads right after two applies: the reader takes its new value, or it is nowhere. -/
theorem effective_apply_apply {mid out : Str}
    (h₁ : t₁.apply fmtF32 ngl₁ content section_ = some mid)
    (h₂ : t₂.apply fmtF32 ngl₂ mid section_ = some out) :
    R.effective out section_ key = newValue (t₂.settings fmtF32 ngl₂) key ↔
      (∀ v, newValue (t₂.settings fmtF32 ngl₂) key = some v →
        R.pick (v :: (assignedIn content section_ key).tail) = some v) ∧
      (newValue (t₂.settings fmtF32 ngl₂) key = none →
        newValue (t₁.settings fmtF32 ngl₁) key = none ∧ assignedIn content section_ key = []) := by
  rw [IniReader.effective, assignedIn_apply_apply h₁ h₂]
  cases newValue (t₂.settings fmtF32 ngl₂) key with
  | some v => simp
  | none =>
    cases newValue (t₁.settings fmtF32 ngl₁) key with
    | some v => simp [R.pick_eq_none]
    | none => simp [R.pick_eq_none]

/-- The two runs are compared through what `t₂` writes. -/
theorem lastApplyWins_iff_newValue {mid out : Str} (h : HasSection content section_)
    (hmid : t₁.apply fmtF32 ngl₁ content section_ = some mid)
    (hout : t₂.apply fmtF32 ngl₂ mid section_ = some out) :
    LastApplyWins fmtF32 R content section_ ngl₁ ngl₂ t₁ t₂ ↔
      ∀ key ∈ tunerKeys,
        R.effective out section_ key = newValue (t₂.settings fmtF32 ngl₂) key := by
  obtain ⟨clean, hclean, hnone⟩ := exists_clean h
  obtain ⟨cleanOut, hcleanOut, -⟩ := HasSection.apply fmtF32 hclean t₂ ngl₂
  constructor
  · intro hw key hk
    rw [hw mid out hmid hout clean cleanOut (fun key _ => hnone key) hcleanOut key hk]
    exact effective_clean (hnone key) hcleanOut
  · intro he mid' out' hmid' hout' clean' cleanOut' hc hcleanOut' key hk
    cases hmid.symm.trans hmid'
    cases hout.symm.trans hout'
    rw [he key hk, effective_clean (hc key hk) hcleanOut']

/-- **Last apply wins**, exactly when nothing is left of an earlier setting. -/
theorem lastApply_iff (h : HasSection content section_) :
    LastApplyWins fmtF32 R content section_ ngl₁ ngl₂ t₁ t₂ ↔
      NothingLeft fmtF32 R content section_ ngl₂ t₁ t₂ := by
  obtain ⟨mid, hmid, hsec⟩ := h.apply fmtF32 t₁ ngl₁
  obtain ⟨out, hout, -⟩ := hsec.apply fmtF32 t₂ ngl₂
  have hmlock : ("mlock" : Str) ∈ tunerKeys := by decide
  have hnoMmap : ("no-mmap" : Str) ∈ tunerKeys := by decide
  rw [lastApplyWins_iff_newValue h hmid hout]
  constructor
  · intro he
    refine ⟨fun h2 => ?_, fun h2 => ?_, fun kv hkv => ?_⟩
    · have hnone := ((effective_apply_apply hmid hout).mp (he _ hmlock)).2 (newValue_mlock.mpr h2)
      exact hnone.imp_left newValue_mlock.mp
    · have hnone := ((effective_apply_apply hmid hout).mp (he _ hnoMmap)).2
        (newValue_noMmap.mpr h2)
      exact hnone.imp_left newValue_noMmap.mp
    · have hk : kv.1 ∈ tunerKeys := sublist_tuner_keys.subset (List.mem_map_of_mem hkv)
      exact ((effective_apply_apply hmid hout).mp (he _ hk)).1 _
        ((newValue_eq_some plainSettings.nodup).mpr hkv)
  · intro hl key hk
    refine (effective_apply_apply hmid hout).mpr ⟨fun v hv => ?_, fun hn => ?_⟩
    · exact hl.repeated (key, v) ((newValue_eq_some plainSettings.nodup).mp hv)
    · rcases (newValue_eq_none_iff hk).mp hn with ⟨rfl, h2⟩ | ⟨rfl, h2⟩
      · exact (hl.mlock h2).imp_left newValue_mlock.mpr
      · exact (hl.noMmap h2).imp_left newValue_noMmap.mpr

end Twice

/-- Prints `1.0` as `Display` does. -/
def fmtOne : Float32 → Word := fun _ => ⟨"1", by decide⟩

/-- Every float is `1.0`. -/
def samplePanel : Panel := { Panel.new 8 8192 with defragThold := 1 }

theorem lastApplyWins_samplePanel :
    LastApplyWins fmtOne .last "[A]\nmodel = x\nngl = 5\n" "A" 33 99 samplePanel samplePanel := by
  have hs : HasSection "[A]\nmodel = x\nngl = 5\n" "A" := by decide +kernel
  refine (lastApply_iff hs).mpr ⟨fun _ => ?_, fun _ => ?_, ?_⟩
  · decide +kernel
  · decide +kernel
  · decide +kernel

/-- `mlock` is switched on, applied, switched off and applied again. -/
theorem not_lastApplyWins_mlock :
    ¬ LastApplyWins fmtOne .last "[A]\n" "A" 99 99 { samplePanel with mlock := true }
      samplePanel := by
  intro h
  have he := h _ _
    (Option.some_get (x := ({ samplePanel with mlock := true } : Panel).apply fmtOne 99 "[A]\n" "A")
      (by decide +kernel)).symm
    (Option.some_get (by decide +kernel)).symm "[A]\n" _ (by decide +kernel)
    (Option.some_get (by decide +kernel)).symm "mlock" (by decide)
  revert he
  decide +kernel

end Saltnitor.Tuner
