import Mathlib.Data.Int.Log
import Mathlib.Data.Rat.Floor
import Mathlib.Tactic.Linarith
import Saltnitor.Rust.Number

/-!
# Arithmetic on doubles

`F64.nearest` is the double a real result rounds to: the nearest multiple of the unit
in the last place, ties to even, infinite past the largest one. `fadd`, `fmul` and `fdiv`
are the exact operations of `F64` with their result rounded so.
-/

namespace Rust

/-- The unit in the last place of a double of size `a`: 53 bits, the least exponent -1074. -/
def ulp (a : ℚ) : ℚ := 2 ^ max (Int.log 2 a - 52) (-1074)

theorem ulp_pos (a : ℚ) : 0 < ulp a := zpow_pos (by norm_num) _

theorem ulp_le {a : ℚ} (h : 0 ≤ a) : ulp a ≤ a + 1 := by
  unfold ulp
  rcases max_choice (Int.log 2 a - 52) (-1074) with hm | hm <;> rw [hm]
  · rcases h.eq_or_lt with rfl | hpos
    · norm_num
    · have hlog : (2 : ℚ) ^ (Int.log 2 a - 52) ≤ 2 ^ Int.log 2 a :=
        zpow_le_zpow_right₀ (by norm_num) (by omega)
      have hself : (2 : ℚ) ^ Int.log 2 a ≤ a := by
        exact_mod_cast Int.zpow_log_le_self (by decide : 1 < 2) hpos
      linarith
  · have hone : (2 : ℚ) ^ (-1074 : ℤ) ≤ 2 ^ (0 : ℤ) := zpow_le_zpow_right₀ (by norm_num) (by omega)
    rw [zpow_zero] at hone
    linarith

theorem natCast_div_ulp {n : Nat} (hn : n < 2 ^ 53) : ∃ k : Nat, (n : ℚ) / ulp n = k := by
  have hlog : Int.log 2 (n : ℚ) ≤ 52 := by
    rw [Int.log_natCast]
    rcases Nat.eq_zero_or_pos n with rfl | hpos
    · simp
    · have : Nat.log 2 n < 53 := Nat.log_lt_of_lt_pow (by omega) hn
      omega
  obtain ⟨j, hj⟩ : ∃ j : Nat, max (Int.log 2 (n : ℚ) - 52) (-1074) = -(j : Int) :=
    ⟨(-max (Int.log 2 (n : ℚ) - 52) (-1074)).toNat, by omega⟩
  refine ⟨n * 2 ^ j, ?_⟩
  rw [ulp, hj, zpow_neg, zpow_natCast, div_inv_eq_mul]
  push_cast
  rfl

namespace F64

theorem nearestEven_natCast (k : Nat) : nearestEven k = k := by
  have hfloor : (k : ℚ).floor = k := Rat.floor_intCast k
  simp [nearestEven, hfloor]

/-- Half a unit is the most that rounding moves a number. -/
theorem abs_nearestEven_sub {v : ℚ} (h : 0 ≤ v) : |(nearestEven v : ℚ) - v| ≤ 1 / 2 := by
  have hfloor : ((v.floor.toNat : Nat) : ℚ) = (⌊v⌋ : ℚ) := by
    have : (0 : Int) ≤ ⌊v⌋ := Int.floor_nonneg.mpr h
    exact_mod_cast Int.toNat_of_nonneg this
  have hle := Int.floor_le v
  have hlt := Int.lt_floor_add_one v
  unfold nearestEven
  simp only [hfloor]
  rw [abs_le]
  split
  · rw [hfloor]
    constructor <;> linarith
  · split
    · rcases Nat.mod_two_eq_zero_or_one v.floor.toNat with h2 | h2 <;> rw [h2] <;> push_cast <;>
        rw [hfloor] <;> constructor <;> linarith
    · push_cast
      rw [hfloor]
      constructor <;> linarith

/-- The double nearest to `v`, the even one of two. -/
def nearest (v : ℚ) : F64 :=
  let a := nearestEven (|v| / ulp |v|) * ulp |v|
  if a < 2 ^ 1024 then fin (if v < 0 then -a else a) else inf (v < 0)

example : nearest (1 / 10) = fin (3602879701896397 / 36028797018963968) := by decide +kernel

theorem nearest_natCast {n : Nat} (hn : n < 2 ^ 53) : nearest n = fin n := by
  obtain ⟨k, hk⟩ := natCast_div_ulp hn
  have ha : (nearestEven ((n : ℚ) / ulp n) : ℚ) * ulp n = n := by
    rw [hk, nearestEven_natCast, ← hk, div_mul_cancel₀ _ (ulp_pos _).ne']
  have hlt : (n : ℚ) < 2 ^ 1024 := by
    have : (n : ℚ) < 2 ^ 53 := by exact_mod_cast hn
    exact this.trans (pow_lt_pow_right₀ (by norm_num) (by omega))
  unfold nearest
  simp only [Nat.abs_cast, ha, if_pos hlt, if_neg (not_lt.mpr (Nat.cast_nonneg n))]

/-- A rounded result: what is not finite stays as it is. -/
def rounded : F64 → F64
  | fin v => nearest v
  | x => x

def fadd (x y : F64) : F64 := (x.add y).rounded

def fmul (x y : F64) : F64 := (x.mul y).rounded

/-- Division by a nonzero constant. -/
def fdiv (x : F64) (d : ℚ) : F64 := (x.divBy d).rounded

/-! ## The size of a result -/

/-- A finite number from zero to `b`. -/
def Within (b : ℚ) (x : F64) : Prop := ∃ v, x = fin v ∧ 0 ≤ v ∧ v ≤ b

/-- Zero or more, possibly infinite. -/
def Nonneg (x : F64) : Prop := x = inf false ∨ ∃ v, x = fin v ∧ 0 ≤ v

variable {x y : F64} {a b : ℚ}

theorem Within.nonneg (h : x.Within b) : x.Nonneg := by
  obtain ⟨v, hv, h0, -⟩ := h
  exact .inr ⟨v, hv, h0⟩

theorem Within.mono (h : x.Within a) (hab : a ≤ b) : x.Within b := by
  obtain ⟨v, hv, h0, hle⟩ := h
  exact ⟨v, hv, h0, hle.trans hab⟩

theorem nearest_of_nonneg {v : ℚ} (h : 0 ≤ v) : nearest v =
    if (nearestEven (v / ulp v) : ℚ) * ulp v < 2 ^ 1024 then fin (nearestEven (v / ulp v) * ulp v)
    else inf false := by
  unfold nearest
  simp only [abs_of_nonneg h, if_neg (not_lt.mpr h), decide_eq_false (not_lt.mpr h)]

theorem nonneg_nearest {v : ℚ} (h : 0 ≤ v) : (nearest v).Nonneg := by
  rw [nearest_of_nonneg h]
  split
  · exact .inr ⟨_, rfl, mul_nonneg (Nat.cast_nonneg _) (ulp_pos v).le⟩
  · exact .inl rfl

/-- Rounding at most doubles a number that is not small. -/
theorem within_nearest {v : ℚ} (h0 : 0 ≤ v) (hb : v ≤ b) (hlt : 2 * b + 1 < 2 ^ 1024) :
    (nearest v).Within (2 * b + 1) := by
  have hpos := ulp_pos v
  have hle : (nearestEven (v / ulp v) : ℚ) * ulp v ≤ 2 * b + 1 := by
    have hround := (abs_le.mp (abs_nearestEven_sub (div_nonneg h0 hpos.le))).2
    calc (nearestEven (v / ulp v) : ℚ) * ulp v
        ≤ (v / ulp v + 1 / 2) * ulp v := mul_le_mul_of_nonneg_right (by linarith) hpos.le
      _ = v + ulp v / 2 := by rw [add_mul, div_mul_cancel₀ _ hpos.ne']; ring
      _ ≤ 2 * b + 1 := by linarith [ulp_le h0]
  rw [nearest_of_nonneg h0, if_pos (hle.trans_lt hlt)]
  exact ⟨_, rfl, mul_nonneg (Nat.cast_nonneg _) hpos.le, hle⟩

theorem Within.fadd (hx : x.Within a) (hy : y.Within b) (h : 2 * (a + b) + 1 < 2 ^ 1024) :
    (x.fadd y).Within (2 * (a + b) + 1) := by
  obtain ⟨v, rfl, hv, hva⟩ := hx
  obtain ⟨w, rfl, hw, hwb⟩ := hy
  exact within_nearest (add_nonneg hv hw) (add_le_add hva hwb) h

theorem Within.fmul (hx : x.Within a) (hy : y.Within b) (h : 2 * (a * b) + 1 < 2 ^ 1024) :
    (x.fmul y).Within (2 * (a * b) + 1) := by
  obtain ⟨v, rfl, hv, hva⟩ := hx
  obtain ⟨w, rfl, hw, hwb⟩ := hy
  exact within_nearest (mul_nonneg hv hw) (mul_le_mul hva hwb hw (hv.trans hva)) h

theorem Within.fdiv {d : ℚ} (hx : x.Within a) (hd : 1 ≤ d) (h : 2 * a + 1 < 2 ^ 1024) :
    (x.fdiv d).Within (2 * a + 1) := by
  obtain ⟨v, rfl, hv, hva⟩ := hx
  have hd1 : 1 / d ≤ 1 := (div_le_one (by linarith)).mpr hd
  exact within_nearest (mul_nonneg hv (by positivity)) ((mul_le_of_le_one_right hv hd1).trans hva) h

theorem Within.round (hx : x.Within a) : x.round.Within (a + 1) := by
  obtain ⟨v, rfl, hv, hva⟩ := hx
  refine ⟨_, rfl, ?_⟩
  rw [if_neg (not_lt.mpr hv)]
  have hfloor : (0 : ℚ) ≤ (⌊v + 1 / 2⌋ : ℚ) := by
    exact_mod_cast Int.floor_nonneg.mpr (by linarith : (0 : ℚ) ≤ v + 1 / 2)
  exact ⟨hfloor, (Int.floor_le (v + 1 / 2)).trans (by linarith)⟩

theorem Nonneg.fadd (hx : x.Nonneg) (hy : y.Nonneg) : (x.fadd y).Nonneg := by
  rcases hx with rfl | ⟨v, rfl, hv⟩ <;> rcases hy with rfl | ⟨w, rfl, hw⟩
  · exact .inl rfl
  · exact .inl rfl
  · exact .inl rfl
  · exact nonneg_nearest (add_nonneg hv hw)

theorem Nonneg.fmul_fin {c : ℚ} (hx : x.Nonneg) (hc : 0 < c) : (x.fmul (fin c)).Nonneg := by
  rcases hx with rfl | ⟨v, rfl, hv⟩
  · refine .inl ?_
    simp [F64.fmul, F64.mul, negative, rounded, hc.ne', not_lt.mpr hc.le]
  · exact nonneg_nearest (mul_nonneg hv hc.le)

theorem Nonneg.fdiv {d : ℚ} (hx : x.Nonneg) (hd : 0 < d) : (x.fdiv d).Nonneg :=
  hx.fmul_fin (one_div_pos.mpr hd)

theorem Nonneg.round (hx : x.Nonneg) : x.round.Nonneg := by
  rcases hx with rfl | ⟨v, rfl, hv⟩
  · exact .inl rfl
  · exact (Within.round ⟨v, rfl, hv, le_rfl⟩).nonneg

theorem nonneg_max_fin (x : F64) {c : ℚ} (hc : 0 ≤ c) : (x.max (fin c)).Nonneg := by
  cases x with
  | nan => exact .inr ⟨c, rfl, hc⟩
  | inf negative =>
    cases negative with
    | false => exact .inl rfl
    | true => exact .inr ⟨c, rfl, hc⟩
  | fin v =>
    simp only [F64.max]
    split
    · exact .inr ⟨c, rfl, hc⟩
    · rename_i h
      exact .inr ⟨v, rfl, hc.trans (le_of_not_ge (by simpa [F64.le] using h))⟩

theorem Nonneg.fin_of_lt (hx : x.Nonneg) (h : x.lt y = true) : ∃ v, x = fin v := by
  rcases hx with rfl | ⟨v, rfl, -⟩
  · cases y with
    | nan => cases h
    | inf negative => cases negative <;> cases h
    | fin w => cases h
  · exact ⟨v, rfl⟩

end F64

end Rust
