import Saltnitor.Auth
import Saltnitor.Lib.RateLimit

/-!
# The audit of failed authentications

Every request the layer turns away for its credentials is a failure of its peer.
`audit` runs the layer over requests as they come in and collects what each of
them logs. `lineTimes_eq` says the lines of one IP are what a limiter of one line
per IP and second lets through of the failures.
-/

namespace Saltnitor.Auth

open Rust Http

/-- `AuthState::new` -/
def AuthState.new (token : Option Str) (allowQueryToken : Bool) : AuthState := { token, allowQueryToken }

/-! ## Requests as they come in -/

/-- A request and the time it takes the lock, in nanoseconds. -/
structure Attempt where
  now : Nat
  req : Request

namespace Attempt

def lines (auth : AuthState) (a : Attempt) : List Str := (middleware auth a.now a.req).2.1

def next (auth : AuthState) (a : Attempt) : AuthState := (middleware auth a.now a.req).1

/-- The request is turned away for its credentials. -/
def Fails (auth : AuthState) (a : Attempt) : Prop := decision auth a.now a.req = some .authRequired

def IsFrom (ip : Str) (a : Attempt) : Prop := ∃ p, a.req.peer = some p ∧ p.ip = ip

instance (auth : AuthState) (a : Attempt) : Decidable (a.Fails auth) := inferInstanceAs (Decidable (_ = _))

instance (ip : Str) (a : Attempt) : Decidable (a.IsFrom ip) :=
  decidable_of_iff (a.req.peer.any fun p => decide (p.ip = ip)) (by
    unfold IsFrom
    cases a.req.peer <;> simp)

end Attempt

/-- The requests, each with the lines it logs. -/
def audit : AuthState → List Attempt → List (Attempt × List Str)
  | _, [] => []
  | auth, a :: as => (a, a.lines auth) :: audit (a.next auth) as

/-- The state behind the requests. -/
def audited (auth : AuthState) (as : List Attempt) : AuthState := as.foldl Attempt.next auth

/-- When the lines of an IP were logged. -/
def lineTimes (ip : Str) (auth : AuthState) (as : List Attempt) : List Nat :=
  (audit auth as).flatMap fun l => if l.1.IsFrom ip then l.2.map fun _ => l.1.now else []

/-! ## One request -/

/-- The failure of an IP that a request is. -/
def failureOf (auth : AuthState) (a : Attempt) : Option (Str × Nat) :=
  if a.Fails auth then a.req.peer.map fun p => (p.ip, a.now) else none

variable {auth : AuthState} {a : Attempt} {as before : List Attempt} {ip : Str}

theorem code_withId (req : Request) (e : ApiError) : (withId req e).code = e.code := by
  unfold withId
  split <;> rfl

/-- A request either leaves the state and the log alone, or it fails and goes to `logFailure`. -/
theorem middleware_step (auth : AuthState) (a : Attempt) :
    (¬ a.Fails auth ∧ a.next auth = auth ∧ a.lines auth = []) ∨
    (a.Fails auth ∧ ∃ reason, (a.next auth, a.lines auth) =
      auth.logFailure a.now a.req.peer a.req.method a.req.uri.path reason) := by
  unfold Attempt.Fails Attempt.next Attempt.lines decision middleware
  dsimp only
  cases policyFor a.req.uri.path with
  | none => exact .inl ⟨by simp [code_withId], rfl, rfl⟩
  | some policy =>
    dsimp only
    cases policy.decide a.req.method (presented auth a.req) with
    | ok u => exact .inl ⟨by simp, rfl, rfl⟩
    | error code =>
      cases code with
      | authRequired => exact .inr ⟨by simp [code_withId], _, rfl⟩
      | _ => exact .inl ⟨by simp [code_withId], rfl, rfl⟩

theorem fails_iff : a.Fails auth ↔ (∃ r, Routed a.req r) ∧ ¬ Admitted auth a.req := by
  unfold Attempt.Fails
  by_cases hr : ∃ r, Routed a.req r
  · by_cases ha : Admitted auth a.req
    · rw [decision_admitted ha]
      exact iff_of_false (by simp) fun h => h.2 ha
    · rw [decision_refused hr ha]
      exact iff_of_true rfl ⟨hr, ha⟩
  · rw [decision_unrouted (not_exists.mp hr)]
    exact iff_of_false (by simp) fun h => hr h.1

theorem failureOf_logged (last : Str → Option Nat) :
    failureOf { auth with lastFailure := last } a = failureOf auth a := by
  have hfails : a.Fails { auth with lastFailure := last } ↔ a.Fails auth := by
    rw [fails_iff, fails_iff]
    exact Iff.rfl
  simp only [failureOf, hfails]

/-! ## The limiter behind the log -/

abbrev tooSoon (last : Str → Option Nat) (f : Str × Nat) : Bool :=
  RateLimit.tooSoon Prod.fst Prod.snd (10 ^ 9) last f

abbrev advance (last : Str → Option Nat) (f : Str × Nat) : Str → Option Nat :=
  RateLimit.advance Prod.fst Prod.snd (10 ^ 9) last f

theorem failureOf_eq_some {f : Str × Nat} :
    failureOf auth a = some f ↔ a.Fails auth ∧ ∃ p, a.req.peer = some p ∧ (p.ip, a.now) = f := by
  simp [failureOf, Option.map_eq_some_iff]

/-- A failure is what the limiter sees of a request. -/
theorem step_failure {f : Str × Nat} (h : failureOf auth a = some f) :
    a.next auth = { auth with lastFailure := advance auth.lastFailure f } ∧
      (a.lines auth).length = if tooSoon auth.lastFailure f then 0 else 1 := by
  obtain ⟨hf, p, hp, rfl⟩ := failureOf_eq_some.mp h
  rcases middleware_step auth a with ⟨hn, -⟩ | ⟨-, reason, hs⟩
  · exact absurd hf hn
  · obtain ⟨hnext, hlines⟩ := Prod.mk.inj hs
    rw [hnext, hlines, hp]
    unfold advance RateLimit.advance tooSoon RateLimit.tooSoon
    dsimp only
    split
    · exact ⟨rfl, rfl⟩
    · exact ⟨rfl, rfl⟩

/-- Anything else it does not see, and nothing of it is logged for an IP. -/
theorem step_other (h : failureOf auth a = none) :
    a.next auth = auth ∧ (a.IsFrom ip → a.lines auth = []) := by
  rcases middleware_step auth a with ⟨-, hn, hl⟩ | ⟨hf, reason, hs⟩
  · exact ⟨hn, fun _ => hl⟩
  · have hp : a.req.peer = none := by simpa [failureOf, hf] using h
    obtain ⟨hnext, -⟩ := Prod.mk.inj hs
    rw [hnext, hp]
    refine ⟨rfl, ?_⟩
    rintro ⟨p, hsome, -⟩
    rw [hp] at hsome
    cases hsome

/-! ## A run -/

/-- The failures of the requests. -/
def failures (auth : AuthState) (as : List Attempt) : List (Str × Nat) := as.filterMap (failureOf auth)

theorem audited_eq :
    audited auth as = { auth with lastFailure := (failures auth as).foldl advance auth.lastFailure } := by
  induction as generalizing auth with
  | nil => rfl
  | cons a as ih =>
    rw [audited, List.foldl_cons, ← audited, ih]
    cases h : failureOf auth a with
    | none => rw [(@step_other auth a [] h).1, failures, failures, List.filterMap_cons_none h]
    | some f =>
      have hrest : failures { auth with lastFailure := advance auth.lastFailure f } as =
          failures auth as := List.filterMap_congr fun _ _ => failureOf_logged _
      rw [(step_failure h).1, hrest, failures, failures, List.filterMap_cons_some h, List.foldl_cons]

/-- **The lines of an IP are what the limiter lets through of its failures.** -/
theorem lineTimes_eq :
    lineTimes ip auth as =
      RateLimit.timesOf Prod.fst Prod.snd (10 ^ 9) ip auth.lastFailure (failures auth as) := by
  induction as generalizing auth with
  | nil => rfl
  | cons a as ih =>
    have hcons : lineTimes ip auth (a :: as) =
        (if a.IsFrom ip then (a.lines auth).map fun _ => a.now else []) ++
          lineTimes ip (a.next auth) as := List.flatMap_cons ..
    rw [hcons, ih]
    cases h : failureOf auth a with
    | none =>
      obtain ⟨hnext, hlines⟩ := @step_other auth a ip h
      have hfirst : (if a.IsFrom ip then (a.lines auth).map fun _ => a.now else []) = [] := by
        split
        · rename_i hfrom
          rw [hlines hfrom, List.map_nil]
        · rfl
      rw [hnext, hfirst, List.nil_append, failures, failures, List.filterMap_cons_none h]
    | some f =>
      obtain ⟨-, p, hp, rfl⟩ := failureOf_eq_some.mp h
      obtain ⟨hnext, hlines⟩ := step_failure h
      have hrest : failures { auth with lastFailure := advance auth.lastFailure (p.ip, a.now) } as =
          failures auth as := List.filterMap_congr fun _ _ => failureOf_logged _
      have hfrom : a.IsFrom ip ↔ p.ip = ip := by simp [Attempt.IsFrom, hp]
      rw [hnext, hrest, failures, failures, List.filterMap_cons_some h, RateLimit.timesOf_cons]
      congr 1
      rw [List.map_const', hlines, tooSoon]
      generalize RateLimit.tooSoon Prod.fst Prod.snd (10 ^ 9) auth.lastFailure (p.ip, a.now) = soon
      cases soon <;> simp [hfrom]

theorem lineTimes_filter :
    lineTimes ip auth as = lineTimes ip auth (as.filter fun a => a.IsFrom ip) := by
  have hfilter : (failures auth (as.filter fun a => a.IsFrom ip)).filter (fun f => f.1 = ip) =
      (failures auth as).filter fun f => f.1 = ip := by
    rw [failures, failures, List.filter_filterMap, List.filter_filterMap, List.filterMap_filter]
    refine List.filterMap_congr fun a _ => ?_
    cases h : failureOf auth a with
    | none => simp
    | some f =>
      obtain ⟨-, p, hp, rfl⟩ := failureOf_eq_some.mp h
      have hfrom : a.IsFrom ip ↔ p.ip = ip := by simp [Attempt.IsFrom, hp]
      by_cases hip : p.ip = ip <;> simp [hfrom, hip, Option.filter]
  rw [lineTimes_eq, lineTimes_eq, RateLimit.timesOf_filter rfl, ← hfilter,
    ← RateLimit.timesOf_filter rfl]

theorem logged_iff (hfrom : a.IsFrom ip) (hf : a.Fails auth) (hfresh : auth.lastFailure = fun _ => none) :
    a.lines (audited auth before) ≠ [] ↔
      ∀ t, (lineTimes ip auth before).getLast? = some t → t + 10 ^ 9 ≤ a.now := by
  obtain ⟨p, hp, rfl⟩ := hfrom
  have h : failureOf auth a = some (p.ip, a.now) := failureOf_eq_some.mpr ⟨hf, p, hp, rfl⟩
  have hlines := (@step_failure (audited auth before) a _
    (by rw [audited_eq, failureOf_logged]; exact h)).2
  have hsoon := @RateLimit.tooSoon_foldl _ _ Prod.fst Prod.snd (10 ^ 9) _ (p.ip, a.now)
    (failures auth before)
  rw [audited_eq, hfresh] at hlines
  rw [lineTimes_eq, hfresh, ← List.length_pos_iff, audited_eq, hfresh, hlines]
  split
  · rename_i hs
    obtain ⟨t, ht, hlt⟩ := hsoon.mp hs
    exact iff_of_false (by omega) fun hall => by
      have := hall t ht
      omega
  · rename_i hs
    refine iff_of_true one_pos fun t ht => ?_
    by_contra hlt
    exact hs (hsoon.mpr ⟨t, ht, by simp only; omega⟩)

/-- **The audit is limited for each IP on its own**: its lines are a second apart, its first failure
is logged, a later one just when the last line is a second old, and what other peers do changes
nothing. -/
theorem audit_limited (token : Option Str) (allowQueryToken : Bool) (ip : Str) :
    let auth := AuthState.new token allowQueryToken
    (∀ as, (lineTimes ip auth as).Pairwise fun t u => t + 10 ^ 9 ≤ u) ∧
    (∀ (before : List Attempt) (a : Attempt), (∀ b ∈ before, b.IsFrom ip → ¬ b.Fails auth) →
      a.IsFrom ip → a.Fails auth → a.lines (audited auth before) ≠ []) ∧
    (∀ (before : List Attempt) (a : Attempt), a.IsFrom ip → a.Fails auth →
      (a.lines (audited auth before) ≠ [] ↔
        ∀ t, (lineTimes ip auth before).getLast? = some t → t + 10 ^ 9 ≤ a.now)) ∧
    ∀ as, lineTimes ip auth as = lineTimes ip auth (as.filter fun a => a.IsFrom ip) := by
  intro auth
  refine ⟨fun as => ?_, fun before a hb hfrom hf => ?_, fun before a hfrom hf =>
    logged_iff hfrom hf rfl, fun as => lineTimes_filter⟩
  · rw [lineTimes_eq]
    exact (RateLimit.pairwise_timesOf (by omega)).1
  · rw [logged_iff hfrom hf rfl, lineTimes_filter, lineTimes_eq]
    have hnone : failures auth (before.filter fun a => a.IsFrom ip) = [] := by
      refine List.filterMap_eq_nil_iff.mpr fun b hm => ?_
      obtain ⟨hm, hi⟩ := List.mem_filter.mp hm
      exact if_neg (hb b hm (of_decide_eq_true hi))
    rw [hnone]
    exact fun t ht => nomatch ht

end Saltnitor.Auth
