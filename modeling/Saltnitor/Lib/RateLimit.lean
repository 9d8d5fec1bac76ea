import Mathlib.Data.List.Basic
import Mathlib.Order.Basic

/-!
# At most one event per key and window

A limiter remembers when it last let an event of each key through, and holds an
event back that comes less than the window `w` after that. What it lets through
is at least a window apart (`pairwise_timesOf`), an event held back does not
extend the window (`tooSoon_foldl`), and keys do not see each other (`timesOf_filter`).
-/

namespace RateLimit

variable {ε κ : Type*} (key : ε → κ) (time : ε → ℕ) (w : ℕ)

/-- The event comes within the window of the last one of its key. -/
def tooSoon (last : κ → Option ℕ) (e : ε) : Bool := (last (key e)).any fun t => time e - t < w

theorem tooSoon_iff {key : ε → κ} {time : ε → ℕ} {w : ℕ} {last : κ → Option ℕ} {e : ε} :
    tooSoon key time w last e = true ↔ ∃ t, last (key e) = some t ∧ time e - t < w := by
  unfold tooSoon
  cases last (key e) <;> simp

theorem tooSoon_congr {key : ε → κ} {time : ε → ℕ} {w : ℕ} {last last' : κ → Option ℕ} {e : ε}
    (h : last (key e) = last' (key e)) :
    tooSoon key time w last e = tooSoon key time w last' e := by
  rw [tooSoon, tooSoon, h]

variable [DecidableEq κ]

def advance (last : κ → Option ℕ) (e : ε) : κ → Option ℕ :=
  if tooSoon key time w last e then last else fun k => if k = key e then some (time e) else last k

/-- The events let through. -/
def passed : (κ → Option ℕ) → List ε → List ε
  | _, [] => []
  | last, e :: es =>
    if tooSoon key time w last e then passed last es else e :: passed (advance key time w last e) es

/-- When events of `k` were let through. -/
def timesOf (k : κ) (last : κ → Option ℕ) (es : List ε) : List ℕ :=
  ((passed key time w last es).filter fun e => key e = k).map time

variable {key time w} {k : κ} {last last' : κ → Option ℕ} {e : ε} {es : List ε}

theorem advance_of_ne (h : key e ≠ k) : advance key time w last e k = last k := by
  unfold advance
  split
  · rfl
  · exact if_neg (Ne.symm h)

theorem advance_congr (h : last (key e) = last' (key e)) :
    advance key time w last e (key e) = advance key time w last' e (key e) := by
  unfold advance
  rw [tooSoon_congr h]
  split
  · exact h
  · simp only [if_true]

theorem timesOf_cons :
    timesOf key time w k last (e :: es) =
      (if key e = k ∧ tooSoon key time w last e = false then [time e] else []) ++
        timesOf key time w k (advance key time w last e) es := by
  cases hs : tooSoon key time w last e with
  | true => simp [timesOf, passed, advance, hs]
  | false =>
    by_cases hk : key e = k
    · simp [timesOf, passed, hs, hk]
    · simp [timesOf, passed, hs, hk]

theorem timesOf_filter (h : last k = last' k) :
    timesOf key time w k last es = timesOf key time w k last' (es.filter fun e => key e = k) := by
  induction es generalizing last last' with
  | nil => rfl
  | cons e es ih =>
    by_cases hk : key e = k
    · subst hk
      rw [List.filter_cons_of_pos (by simp), timesOf_cons, timesOf_cons, tooSoon_congr h,
        ih (advance_congr h)]
    · rw [List.filter_cons_of_neg (by simpa using hk), timesOf_cons, if_neg fun hc => hk hc.1,
        List.nil_append, ih ((advance_of_ne hk).trans h)]

theorem foldl_advance :
    es.foldl (advance key time w) last k = (timesOf key time w k last es).getLast?.or (last k) := by
  induction es generalizing last with
  | nil => rfl
  | cons e es ih =>
    rw [List.foldl_cons, ih, timesOf_cons, List.getLast?_append, Option.or_assoc]
    congr 1
    unfold advance
    cases tooSoon key time w last e with
    | true => simp
    | false =>
      by_cases hk : key e = k
      · simp [hk]
      · simp [hk, Ne.symm hk]

/-- From the start an event is held back only within the window of the last one let through. -/
theorem tooSoon_foldl :
    tooSoon key time w (es.foldl (advance key time w) fun _ => none) e = true ↔
      ∃ t, (timesOf key time w (key e) (fun _ => none) es).getLast? = some t ∧ time e - t < w := by
  rw [tooSoon_iff, foldl_advance, Option.or_none]

theorem pairwise_timesOf (hw : 0 < w) :
    (timesOf key time w k last es).Pairwise (fun t u => t + w ≤ u) ∧
      ∀ t, last k = some t → ∀ u ∈ timesOf key time w k last es, t + w ≤ u := by
  induction es generalizing last with
  | nil => exact ⟨.nil, fun _ _ _ hu => nomatch hu⟩
  | cons e es ih =>
    rw [timesOf_cons]
    split
    · rename_i h
      obtain ⟨rfl, hs⟩ := h
      have hlast : advance key time w last e (key e) = some (time e) := by simp [advance, hs]
      obtain ⟨hpair, hafter⟩ := @ih (advance key time w last e)
      have hnext := hafter _ hlast
      refine ⟨List.pairwise_cons.mpr ⟨hnext, hpair⟩, fun t ht u hu => ?_⟩
      have hfirst : t + w ≤ time e := by
        have hns : ¬ time e - t < w := fun hlt => by
          rw [tooSoon_iff.mpr ⟨t, ht, hlt⟩] at hs
          cases hs
        omega
      rcases List.mem_cons.mp hu with rfl | hu
      · exact hfirst
      · have := hnext u hu
        omega
    · rename_i h
      have hsame : advance key time w last e k = last k := by
        by_cases hk : key e = k
        · have hs : tooSoon key time w last e = true := by simpa [hk] using h
          simp [advance, hs]
        · exact advance_of_ne hk
      obtain ⟨hpair, hafter⟩ := @ih (advance key time w last e)
      exact ⟨hpair, fun t ht => hafter t (hsame.trans ht)⟩

end RateLimit
