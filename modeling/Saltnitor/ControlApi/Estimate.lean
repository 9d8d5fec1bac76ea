import Mathlib.Tactic.Linarith
import Saltnitor.ControlApi.Ensure

/-!
# Declared estimates

A profile may declare what it needs; the oracle uses the declared figures only when both are
there and guesses both from the file name otherwise. `Covered` says the guess is not below the one
figure that is declared, and then, and only then, the declared figures bind: what they say
cannot fit is refused.
-/

namespace Saltnitor.ControlApi

open Rust Http ProxyStream

/-! ## Exact numbers -/

theorem le_add_of_lt_add {need declared : F64} {reserve total : ℚ}
    (h : need.lt declared = false)
    (hx : F64.lt (.fin total) (declared.add (.fin reserve)) = true) :
    (need.add (.fin reserve)).le (.fin total) = false := by
  cases need with
  | nan => rfl
  | inf negative =>
    cases negative with
    | false => rfl
    | true =>
      cases declared with
      | nan => cases hx
      | inf negative => cases negative <;> simp_all [F64.lt, F64.le, F64.add]
      | fin w => simp [F64.lt, F64.le] at h
  | fin u =>
    cases declared with
    | nan => cases hx
    | inf negative => cases negative <;> simp_all [F64.lt, F64.le, F64.add]
    | fin w =>
      simp only [F64.lt, F64.le, F64.add, Bool.and_eq_true, decide_eq_true_eq, bne_iff_ne, ne_eq,
        F64.fin.injEq, Bool.and_eq_false_iff, decide_eq_false_iff_not, bne_eq_false_iff_eq] at h hx ⊢
      rcases h with h | h <;> rcases hx with ⟨hx, hne⟩ <;> have := lt_of_le_of_ne hx hne <;> linarith

theorem lt_add_of_lt {need : ℚ} {declared : F64} (total : ℚ) (h : F64.lt (.fin need) declared = true) :
    F64.lt (.fin total) (declared.add (.fin (total - need))) = true := by
  cases declared with
  | nan => cases h
  | inf negative => cases negative <;> simp_all [F64.lt, F64.le, F64.add]
  | fin w =>
    simp only [F64.lt, F64.le, F64.add, Bool.and_eq_true, decide_eq_true_eq, bne_iff_ne, ne_eq,
      F64.fin.injEq] at h ⊢
    have := lt_of_le_of_ne h.1 h.2
    exact ⟨by linarith, fun he => by linarith⟩

theorem lt_self (x : F64) : x.lt x = false := by simp [F64.lt]

/-! ## The guess -/

/-- The size of the weights, in GiB, as the file name has it. -/
def weights (model : Str) : F64 :=
  (((parseParamsB model).getD (.fin 8)).fmul (.nearest (parseBpw model))).fdiv 8

/-- What the oracle reckons with for VRAM when a figure is missing. -/
def guessedVram (p : ProfileMeta) : F64 :=
  if p.offload then
    round1 (((weights p.model).fmul (.nearest (15 / 100))).fadd
      ((p.estVramGb.getD (.fin 0)).max (.fin 2)))
  else round1 ((weights p.model).fadd (.fin (15 / 10)))

/-- What it reckons with for RAM. -/
def guessedRam (p : ProfileMeta) : F64 :=
  if p.offload then round1 ((weights p.model).fmul (.nearest (85 / 100))) else .fin 0

/-- The guess is not below the only figure that is declared. -/
def Covered (p : ProfileMeta) : Prop :=
  match p.estVramGb, p.estRamGb with
  | some v, none => (guessedVram p).lt v = false
  | none, some r => (guessedRam p).lt r = false
  | _, _ => True

variable {p : ProfileMeta}

theorem estimateFootprint_declared {v r : F64} (hv : p.estVramGb = some v)
    (hr : p.estRamGb = some r) : estimateFootprint p = (v, r) := by
  simp only [estimateFootprint, hv, hr]

theorem estimateFootprint_guessed (h : p.estVramGb = none ∨ p.estRamGb = none) :
    estimateFootprint p = (guessedVram p, guessedRam p) := by
  unfold estimateFootprint
  split
  · rename_i v r hv hr
    rcases h with h | h
    · cases hv.symm.trans h
    · cases hr.symm.trans h
  · dsimp only [guessedVram, guessedRam, weights]
    split <;> rfl

/-- Covered profiles are those whose footprint is nowhere below a declared figure. -/
theorem covered_iff : Covered p ↔
    (∀ v ∈ p.estVramGb, (estimateFootprint p).1.lt v = false) ∧
      ∀ r ∈ p.estRamGb, (estimateFootprint p).2.lt r = false := by
  unfold Covered
  split
  · rename_i v hv hr
    rw [estimateFootprint_guessed (.inr hr), hv, hr]
    simp
  · rename_i r hv hr
    rw [estimateFootprint_guessed (.inl hv), hv, hr]
    simp
  · rename_i h₁ h₂
    refine iff_of_true trivial ⟨fun v hv => ?_, fun r hr => ?_⟩
    · cases hr : p.estRamGb with
      | none => exact (h₁ v hv hr).elim
      | some r => rw [estimateFootprint_declared hv hr, lt_self]
    · cases hv : p.estVramGb with
      | none => exact (h₂ r hv hr).elim
      | some v => rw [estimateFootprint_declared hv hr, lt_self]

/-! The guess is a number, since the figures it is made from are small. -/

theorem sizeWord_within {w : Str} {x : F64} (h : sizeWord w = some x) : x.Within 2000 := by
  unfold sizeWord at h
  split at h
  · obtain ⟨-, h⟩ := Option.filter_eq_some_iff.mp h
    cases x with
    | nan => cases h
    | inf negative => cases negative <;> cases h
    | fin q =>
      simp only [F64.le, F64.lt, Bool.and_eq_true, decide_eq_true_eq] at h
      exact ⟨q, rfl, by linarith [h.1], h.2.1⟩
  · cases h

theorem parseParamsB_within (name : Str) : ((parseParamsB name).getD (.fin 8)).Within 2000 := by
  cases h : parseParamsB name with
  | none => exact ⟨8, rfl, by norm_num, by norm_num⟩
  | some x =>
    obtain ⟨w, -, hw⟩ := List.exists_of_findSome?_eq_some h
    exact sizeWord_within hw

theorem parseBpw_bounds (name : Str) : 0 ≤ parseBpw name ∧ parseBpw name ≤ 16 := by
  unfold parseBpw
  dsimp only
  split_ifs <;> norm_num

theorem small_lt {b : ℚ} (h : b ≤ 10 ^ 10) : b < 2 ^ 1024 :=
  calc b ≤ 10 ^ 10 := h
    _ < 2 ^ 34 := by norm_num
    _ ≤ 2 ^ 1024 := pow_le_pow_right₀ (by norm_num) (by omega)

theorem weights_within (model : Str) : (weights model).Within (10 ^ 6) := by
  obtain ⟨h0, h16⟩ := parseBpw_bounds model
  have hbpw : (F64.nearest (parseBpw model)).Within 33 :=
    (F64.within_nearest h0 h16 (small_lt (by norm_num))).mono (by norm_num)
  have hmul := (parseParamsB_within model).fmul hbpw (small_lt (by norm_num))
  exact (hmul.fdiv (d := 8) (by norm_num) (small_lt (by norm_num))).mono (by norm_num)

theorem round1_within {x : F64} {b : ℚ} (h : x.Within b) (hb : b ≤ 10 ^ 8) :
    ∃ q, round1 x = .fin q := by
  have hten : (F64.fin 10).Within 10 := ⟨10, rfl, by norm_num, le_rfl⟩
  obtain ⟨q, hq, -⟩ := ((h.fmul hten (small_lt (by linarith))).round).fdiv (d := 10) (by norm_num)
    (small_lt (by linarith))
  exact ⟨q, hq⟩

theorem round1_nonneg {x : F64} (h : x.Nonneg) : (round1 x).Nonneg :=
  ((h.fmul_fin (c := 10) (by norm_num)).round).fdiv (by norm_num)

theorem share_within (model : Str) {c : ℚ} (h0 : 0 ≤ c) (h1 : c ≤ 1) :
    ((weights model).fmul (.nearest c)).Within (10 ^ 7) := by
  have hc := F64.within_nearest h0 h1 (small_lt (by norm_num))
  exact ((weights_within model).fmul hc (small_lt (by norm_num))).mono (by norm_num)

theorem guessedRam_fin (p : ProfileMeta) : ∃ q, guessedRam p = .fin q := by
  unfold guessedRam
  split
  · exact round1_within (share_within p.model (by norm_num) (by norm_num)) (by norm_num)
  · exact ⟨0, rfl⟩

theorem guessedVram_nonneg (p : ProfileMeta) : (guessedVram p).Nonneg := by
  unfold guessedVram
  split
  · have hshare := (share_within p.model (c := 15 / 100) (by norm_num) (by norm_num)).nonneg
    exact round1_nonneg (hshare.fadd (F64.nonneg_max_fin _ (by norm_num)))
  · exact round1_nonneg ((weights_within p.model).nonneg.fadd (.inr ⟨15 / 10, rfl, by norm_num⟩))

/-- The guess for VRAM is a number, or is not below the figure it is made from. -/
theorem guessedVram_fin (h : ∀ v ∈ p.estVramGb, (guessedVram p).lt v = true) :
    ∃ q, guessedVram p = .fin q := by
  cases hv : p.estVramGb with
  | some v => exact (guessedVram_nonneg p).fin_of_lt (h v hv)
  | none =>
    -- nothing declared: two or one and a half are added to a share of the weights
    have hslack {x : F64} {c : ℚ} (hx : x.Within (10 ^ 7)) (h0 : 0 ≤ c) (h2 : c ≤ 2) :
        ∃ q, round1 (x.fadd (.fin c)) = .fin q :=
      round1_within (hx.fadd ⟨c, rfl, h0, h2⟩ (small_lt (by norm_num))) (by norm_num)
    unfold guessedVram
    split
    · have hmax : (p.estVramGb.getD (.fin 0)).max (.fin 2) = .fin 2 := by
        rw [hv]
        decide +kernel
      rw [hmax]
      exact hslack (share_within p.model (by norm_num) (by norm_num)) (by norm_num) le_rfl
    · exact hslack ((weights_within p.model).mono (by norm_num)) (by norm_num) (by norm_num)

/-! ## What a declared estimate promises -/

/-- The declared figure and the reserve are more than there is. -/
def Exceeds (declared : Option F64) (reserve total : ℚ) : Prop :=
  ∃ x, declared = some x ∧ F64.lt (.fin total) (x.add (.fin reserve)) = true

/-- On every host and with every reserve, a profile declared too large is refused, unless it is
resident or the request forces it: no warm request is sent. -/
def DeclaredBinds (p : ProfileMeta) : Prop :=
  ∀ (api : Api) (env : EnsureEnv) (sink : ProgressSink) (req : EnsureRequest)
    (reserveV reserveR totalV totalR : ℚ),
    api.profile req.profile = some p → req.profile ∉ routerLoaded env.models →
    req.force.getD false = false → api.reserves = ⟨.fin reserveV, .fin reserveR⟩ →
    vramTotalGb env.telemetry = .fin totalV → totalRamGb env.telemetry = .fin totalR →
    Exceeds p.estVramGb reserveV totalV ∨ Exceeds p.estRamGb reserveR totalR →
    (∃ info, (ensure api env sink req).1 = .oom info) ∧
      ∀ r, .warm r ∉ (ensure api env sink req).2

theorem oracle_refused {reserve : Reserves} {t : Telemetry}
    (h : ((estimateFootprint p).1.add reserve.vramGb).le (vramTotalGb t) = false ∨
      ((estimateFootprint p).2.add reserve.ramGb).le (totalRamGb t) = false) :
    ∃ info, oracle reserve t p = .error info := by
  rw [← Bool.and_eq_false_iff] at h
  exact ⟨_, by simp only [oracle, h, Bool.false_eq_true, if_false]; rfl⟩

theorem oracle_admitted {reserve : Reserves} {t : Telemetry}
    (hv : ((estimateFootprint p).1.add reserve.vramGb).le (vramTotalGb t) = true)
    (hr : ((estimateFootprint p).2.add reserve.ramGb).le (totalRamGb t) = true) :
    oracle reserve t p = .ok (estimateFootprint p) := by
  simp only [oracle, hv, hr, Bool.and_self, if_true]

theorem declaredBinds_of_covered (h : Covered p) : DeclaredBinds p := by
  intro api env sink req reserveV reserveR totalV totalR hp hres hforce hreserve hv hr hx
  obtain ⟨hcv, hcr⟩ := covered_iff.mp h
  have hrefused : ((estimateFootprint p).1.add api.reserves.vramGb).le
      (vramTotalGb env.telemetry) = false ∨
      ((estimateFootprint p).2.add api.reserves.ramGb).le (totalRamGb env.telemetry) = false := by
    rw [hreserve, hv, hr]
    rcases hx with ⟨x, hx, hlt⟩ | ⟨x, hx, hlt⟩
    · exact .inl (le_add_of_lt_add (hcv x hx) hlt)
    · exact .inr (le_add_of_lt_add (hcr x hx) hlt)
  obtain ⟨info, hinfo⟩ := oracle_refused hrefused
  have hgate : oracleGate sink req.force (oracle api.reserves env.telemetry p) = .error info := by
    rw [hinfo, oracleGate, hforce, if_neg (by decide)]
  rw [ensure_known req hp, ensureLocked_refused req hres hgate]
  refine ⟨⟨info, rfl⟩, fun r => ?_⟩
  cases sink <;> simp [ProgressSink.emit]

/-! ## A host for every profile that is not covered -/

def sampleHost : Telemetry where
  memoryTotal := some { success := true, stdout := "24576\n" }
  memoryUsed := some { success := true, stdout := "512\n" }
  meminfo := some "MemTotal:       67108864 kB\nMemAvailable:   41943040 kB\n"

theorem sampleHost_totals : vramTotalGb sampleHost = .fin 24 ∧ totalRamGb sampleHost = .fin 64 := by
  decide +kernel

/-- One profile, on a host whose reserves leave room for so much. -/
def sampleApi (p : ProfileMeta) (roomV roomR : ℚ) : Api where
  profiles := [("fast", p)]
  routerBase := "http://127.0.0.1:8080"
  inferBearer := none
  reserves := ⟨.fin (24 - roomV), .fin (64 - roomR)⟩
  limits := { connect := secs 5, firstByte := secs 600, idle := secs 120, maxBodyBytes := 33554432 }
  profiles_nodup := by simp

def sampleEnsureEnv : EnsureEnv where
  models := none
  telemetry := sampleHost
  warm := .ok { code := 200, shown := "200 OK" }
  loadMs := 900

theorem not_oom_load (api : Api) (env : EnsureEnv) (sink : ProgressSink) (profile : Str)
    (v : F64) (info : OomInfo) : (load api env sink profile p v).1 ≠ .oom info := by
  by_cases h : ∃ r, Warmed api env profile r
  · obtain ⟨r, h⟩ := h
    simp [load_warmed h]
  · obtain ⟨e, he⟩ := load_failed sink p v h
    simp [he]

/-- A declared figure above the room there is, and a guess that is not: it is let through. -/
theorem not_declaredBinds {needV needR roomV roomR : ℚ}
    (h : estimateFootprint p = (.fin needV, .fin needR)) (hV : needV ≤ roomV) (hR : needR ≤ roomR)
    (hlt : (∃ v ∈ p.estVramGb, F64.lt (.fin roomV) v = true) ∨
      ∃ r ∈ p.estRamGb, F64.lt (.fin roomR) r = true) : ¬ DeclaredBinds p := by
  intro hb
  have hroom {need room total : ℚ} (hle : need ≤ room) :
      ((F64.fin need).add (.fin (total - room))).le (.fin total) = true := by
    simp only [F64.add, F64.le, decide_eq_true_eq]
    linarith
  have hor : oracle (sampleApi p roomV roomR).reserves sampleEnsureEnv.telemetry p =
      .ok (estimateFootprint p) := by
    refine oracle_admitted ?_ ?_
    · rw [h]
      exact (congrArg _ sampleHost_totals.1).trans (hroom hV)
    · rw [h]
      exact (congrArg _ sampleHost_totals.2).trans (hroom hR)
  have hp : (sampleApi p roomV roomR).profile "fast" = some p := rfl
  have hres : ("fast" : Str) ∉ routerLoaded sampleEnsureEnv.models := by decide
  obtain ⟨⟨info, hinfo⟩, -⟩ := hb (sampleApi p roomV roomR) sampleEnsureEnv .none
    { profile := "fast" } (24 - roomV) (64 - roomR) 24 64 hp hres rfl rfl sampleHost_totals.1
    sampleHost_totals.2 (hlt.imp (Exists.imp fun _ => And.imp_right (lt_add_of_lt 24))
      (Exists.imp fun _ => And.imp_right (lt_add_of_lt 64)))
  have hgate : oracleGate .none none (oracle (sampleApi p roomV roomR).reserves
      sampleEnsureEnv.telemetry p) = .ok ((estimateFootprint p).1, []) := by
    rw [hor]
    rfl
  rw [ensure_known _ hp, ensureLocked_admitted _ hres hgate] at hinfo
  exact not_oom_load _ _ _ _ _ _ hinfo

/-- **A declared estimate binds the oracle** exactly when the guess that may replace it is not
below it. -/
theorem declaredBinds_iff (p : ProfileMeta) : DeclaredBinds p ↔ Covered p := by
  refine ⟨fun hb => ?_, declaredBinds_of_covered⟩
  obtain ⟨needR, hR⟩ := guessedRam_fin p
  unfold Covered
  split
  · rename_i v hv hr
    by_contra hlt
    rw [Bool.not_eq_false] at hlt
    obtain ⟨needV, hV⟩ := guessedVram_fin (p := p) fun v' hv' => by
      cases hv.symm.trans hv'
      exact hlt
    have hf : estimateFootprint p = (.fin needV, .fin needR) := by
      rw [estimateFootprint_guessed (.inr hr), hV, hR]
    exact not_declaredBinds hf le_rfl le_rfl (.inl ⟨v, hv, hV ▸ hlt⟩) hb
  · rename_i r hv hr
    by_contra hlt
    rw [Bool.not_eq_false] at hlt
    obtain ⟨needV, hV⟩ := guessedVram_fin (p := p) fun v' hv' => by cases hv.symm.trans hv'
    have hf : estimateFootprint p = (.fin needV, .fin needR) := by
      rw [estimateFootprint_guessed (.inl hv), hV, hR]
    exact not_declaredBinds hf le_rfl le_rfl (.inr ⟨r, hr, hR ▸ hlt⟩) hb
  · trivial

/-- The profile `fast` of the README: 9 GB are declared, 7.7 are reckoned with. -/
def fastProfile : ProfileMeta where
  model := "qwen3-9b-Q5_K_XL.gguf"
  estVramGb := some (.fin 9)

theorem estimateFootprint_fast :
    estimateFootprint fastProfile = (.fin (8669429282688205 / 2 ^ 50), .fin 0) := by
  decide +kernel

/-- With 16 GB in reserve on a card of 24 there is room for 8. -/
theorem not_declaredBinds_fast : ¬ DeclaredBinds fastProfile := by
  have hroom : (8669429282688205 / 2 ^ 50 : ℚ) ≤ 8 := by norm_num
  exact not_declaredBinds estimateFootprint_fast hroom le_rfl (.inl ⟨.fin 9, rfl, by decide +kernel⟩)

end Saltnitor.ControlApi
