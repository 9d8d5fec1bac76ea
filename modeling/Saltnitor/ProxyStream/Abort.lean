import Mathlib.Algebra.Group.Nat.Defs
import Saltnitor.Lib.Machine
import Saltnitor.Rust.Text

/-!
# The relayed body

`AbortOnError` wraps the upstream body. The upstream is what each of its polls
returns, `Nat → InnerPoll`, and the clock is the time of each poll of the
wrapper; the wrapper polls the upstream once per poll of its own until it has
failed. `FailsAt` says, of the upstream and the clock alone, that a poll meets
an upstream error or an expired deadline: up to the first such poll the wrapper
relays what it is given, there it yields its one error, after it nothing.
-/

namespace Saltnitor.ProxyStream

open Rust

/-- Nanoseconds of the monotonic clock. -/
abbrev Instant := Nat

abbrev Duration := Nat

/-- The first instant a 64-bit seconds clock cannot represent. -/
def clockEnd : Instant := 2 ^ 63 * 10 ^ 9

def Instant.checkedAdd (t : Instant) (d : Duration) : Option Instant :=
  if t + d < clockEnd then some (t + d) else none

def secs (n : Nat) : Duration := n * 10 ^ 9

/-- The deadline of `tokio::time::sleep(d)`: thirty years ahead where the clock would overflow. -/
def sleepDeadline (now : Instant) (d : Duration) : Instant :=
  (Instant.checkedAdd now d).getD (now + secs (86400 * 365 * 30))

/-! ## The wrapper -/

/-- One poll of the upstream body. -/
inductive InnerPoll where
  | chunk (b : List UInt8)
  | error
  | ended
  | pending
  deriving DecidableEq

/-- One poll of the downstream body. -/
inductive Item where
  | chunk (b : List UInt8)
  | error
  | ended
  | pending
  deriving DecidableEq

/-- What a poll returned and what it logged. -/
structure Polled where
  item : Item
  log : List Str := []
  deriving DecidableEq

structure AbortOnError where
  /-- Polls of the upstream so far. -/
  inner : Nat
  requestId : Str
  idle : Duration
  deadline : Instant
  failed : Bool
  deriving DecidableEq

namespace AbortOnError

def new (requestId : Str) (idle : Duration) (now : Instant) : AbortOnError :=
  { inner := 0, requestId, idle, deadline := sleepDeadline now idle, failed := false }

/-- An idle gap the clock cannot hold counts as a year. -/
def rearmAt (now : Instant) (idle : Duration) : Instant :=
  (Instant.checkedAdd now idle).getD (now + secs (86400 * 365))

def rearm (s : AbortOnError) (now : Instant) : AbortOnError :=
  { s with deadline := rearmAt now s.idle }

def abortLine (requestId kind : Str) : Str :=
  ("UPSTREAM_STREAM_ABORTED request_id=" : Str) ++ requestId ++ (" " : Str) ++ kind

def abort (s : AbortOnError) (kind : Str) : AbortOnError × Polled :=
  ({ s with failed := true }, { item := .error, log := [abortLine s.requestId kind] })

def pollNext (upstream : Nat → InnerPoll) (s : AbortOnError) (now : Instant) :
    AbortOnError × Polled :=
  if s.failed then (s, { item := .ended })
  else
    let polled := { s with inner := s.inner + 1 }
    match upstream s.inner with
    | .chunk b => (polled.rearm now, { item := .chunk b })
    | .error => polled.abort "upstream failed mid-stream"
    | .ended => (polled, { item := .ended })
    | .pending =>
      if s.deadline ≤ now then polled.abort "idle timeout between chunks"
      else (polled, { item := .pending })

end AbortOnError

/-! ## What the polls should return -/

section Spec

variable (upstream : Nat → InnerPoll) (idle : Duration) (created : Instant) (now : Nat → Instant)

/-- An ended stream stays ended. -/
def StaysEnded : Prop := ∀ i j, i ≤ j → upstream i = .ended → upstream j = .ended

/-- The idle deadline in force at poll `i`. -/
def deadlineAt : Nat → Instant
  | 0 => sleepDeadline created idle
  | i + 1 =>
    match upstream i with
    | .chunk _ => AbortOnError.rearmAt (now i) idle
    | _ => deadlineAt i

/-- Poll `i` meets an upstream error, or a stall past the deadline. -/
def FailsAt (i : Nat) : Prop :=
  upstream i = .error ∨ upstream i = .pending ∧ deadlineAt upstream idle created now i ≤ now i

/-- Poll `i` is the first to fail. -/
def FirstFailure (i : Nat) : Prop :=
  FailsAt upstream idle created now i ∧ ∀ j < i, ¬ FailsAt upstream idle created now j

end Spec

namespace InnerPoll

def chunk? : InnerPoll → Option (List UInt8)
  | chunk b => some b
  | _ => none

/-- What the wrapper yields for it. -/
def relayed : InnerPoll → Item
  | chunk b => .chunk b
  | error => .error
  | ended => .ended
  | pending => .pending

end InnerPoll

def Item.chunk? : Item → Option (List UInt8)
  | .chunk b => some b
  | _ => none

theorem InnerPoll.chunk?_relayed (p : InnerPoll) : p.relayed.chunk? = p.chunk? := by
  cases p <;> rfl

/-- The chunks of the first `n` polls of the upstream. -/
def upstreamChunks (upstream : Nat → InnerPoll) (n : Nat) : List (List UInt8) :=
  Machine.collect (fun i => (upstream i).chunk?) n

/-- The chunks of the first `n` polls of the wrapper. -/
def yielded (out : Nat → Polled) (n : Nat) : List (List UInt8) :=
  Machine.collect (fun i => (out i).item.chunk?) n

/-- Why poll `i` fails, as the log says it. -/
def failureKind (upstream : Nat → InnerPoll) (i : Nat) : Str :=
  if upstream i = .error then "upstream failed mid-stream" else "idle timeout between chunks"

/-- The wrapper from its creation on. -/
def relay (upstream : Nat → InnerPoll) (requestId : Str) (idle : Duration) (created : Instant)
    (now : Nat → Instant) : Nat → Polled :=
  Machine.outAt (AbortOnError.pollNext upstream) (.new requestId idle created) now

section Relay

variable {upstream : Nat → InnerPoll} {requestId : Str} {idle : Duration} {created : Instant}
  {now : Nat → Instant} {i j n : Nat} {s : AbortOnError}

/-- The wrapper before poll `i` when nothing has failed. -/
def live (upstream : Nat → InnerPoll) (requestId : Str) (idle : Duration) (created : Instant)
    (now : Nat → Instant) (i : Nat) : AbortOnError :=
  { inner := i, requestId, idle, deadline := deadlineAt upstream idle created now i,
    failed := false }

theorem pollNext_of_failed (h : s.failed = true) (t : Instant) :
    s.pollNext upstream t = (s, { item := .ended }) := by
  simp [AbortOnError.pollNext, h]

theorem pollNext_live (h : ¬ FailsAt upstream idle created now i) :
    (live upstream requestId idle created now i).pollNext upstream (now i) =
      (live upstream requestId idle created now (i + 1), { item := (upstream i).relayed }) := by
  simp only [FailsAt, not_or, not_and] at h
  cases hu : upstream i with
  | chunk b =>
    simp [AbortOnError.pollNext, live, hu, AbortOnError.rearm, deadlineAt, InnerPoll.relayed]
  | error => exact absurd hu h.1
  | ended => simp [AbortOnError.pollNext, live, hu, deadlineAt, InnerPoll.relayed]
  | pending =>
    simp [AbortOnError.pollNext, live, hu, deadlineAt, InnerPoll.relayed, h.2 hu]

/-- A poll that fails yields the error, logs it and leaves the wrapper failed. -/
theorem pollNext_fails (h : FailsAt upstream idle created now i) :
    let r := (live upstream requestId idle created now i).pollNext upstream (now i)
    r.1.failed = true ∧
      r.2 = { item := .error,
              log := [AbortOnError.abortLine requestId (failureKind upstream i)] } := by
  rcases h with hu | ⟨hu, hd⟩
  · simp [AbortOnError.pollNext, live, hu, AbortOnError.abort, failureKind]
  · simp [AbortOnError.pollNext, live, hu, hd, AbortOnError.abort, failureKind]

theorem stateAt_live (h : ∀ j < i, ¬ FailsAt upstream idle created now j) :
    Machine.stateAt (AbortOnError.pollNext upstream) (.new requestId idle created) now i =
      live upstream requestId idle created now i := by
  induction i with
  | zero => rfl
  | succ i ih =>
    rw [Machine.stateAt_succ, ih fun j hj => h j (Nat.lt_succ_of_lt hj),
      pollNext_live (h i (Nat.lt_succ_self i))]

theorem relay_live (h : ∀ j ≤ i, ¬ FailsAt upstream idle created now j) :
    relay upstream requestId idle created now i = { item := (upstream i).relayed } := by
  rw [relay, Machine.outAt, stateAt_live fun j hj => h j hj.le, pollNext_live (h i le_rfl)]

theorem relay_firstFailure (h : FirstFailure upstream idle created now i) :
    relay upstream requestId idle created now i =
      { item := .error, log := [AbortOnError.abortLine requestId (failureKind upstream i)] } := by
  rw [relay, Machine.outAt, stateAt_live h.2]
  exact (pollNext_fails h.1).2

theorem relay_after (h : FirstFailure upstream idle created now i) (hj : i < j) :
    relay upstream requestId idle created now j = { item := .ended } := by
  have hf : (Machine.stateAt (AbortOnError.pollNext upstream) (.new requestId idle created) now
      j).failed = true := by
    refine Machine.stateAt_inv (m := i + 1) (P := fun s : AbortOnError => s.failed = true) ?_ ?_ hj
    · intro s t hs
      rw [pollNext_of_failed hs]
      exact hs
    · rw [Machine.stateAt_succ, stateAt_live h.2]
      exact (pollNext_fails h.1).1
  rw [relay, Machine.outAt, pollNext_of_failed hf]

variable (upstream idle created now) in
theorem relay_cases (i : Nat) :
    (∀ j ≤ i, ¬ FailsAt upstream idle created now j) ∨
      FirstFailure upstream idle created now i ∨
      ∃ k < i, FirstFailure upstream idle created now k := by
  by_cases h : ∀ j ≤ i, ¬ FailsAt upstream idle created now j
  · exact .inl h
  · push Not at h
    obtain ⟨j, hj, hf⟩ := h
    obtain ⟨k, hk, hk'⟩ := Machine.exists_first (n := i + 1) ⟨j, Nat.lt_succ_of_le hj, hf⟩
    rcases Nat.lt_succ_iff_lt_or_eq.mp hk with hlt | rfl
    · exact .inr (.inr ⟨k, hlt, hk'⟩)
    · exact .inr (.inl hk')

theorem relay_item_error_iff :
    (relay upstream requestId idle created now i).item = .error ↔
      FirstFailure upstream idle created now i := by
  rcases relay_cases upstream idle created now i with h | h | ⟨k, hk, h⟩
  · rw [relay_live h]
    refine ⟨fun he => ?_, fun hf => absurd hf.1 (h i le_rfl)⟩
    refine absurd (.inl ?_) (h i le_rfl)
    cases hu : upstream i <;> simp_all [InnerPoll.relayed]
  · simp [relay_firstFailure h, h]
  · rw [relay_after h hk]
    simp only [reduceCtorEq, false_iff]
    exact fun hf => hf.2 k hk h.1

theorem yielded_live (h : ∀ j < n, ¬ FailsAt upstream idle created now j) :
    yielded (relay upstream requestId idle created now) n = upstreamChunks upstream n := by
  refine Machine.collect_congr fun j hj => ?_
  rw [relay_live fun k hk => h k (hk.trans_lt hj), InnerPoll.chunk?_relayed]

/-- Nothing is yielded from the first failure on. -/
theorem yielded_after (h : FirstFailure upstream idle created now i) (hi : i ≤ n) :
    yielded (relay upstream requestId idle created now) n = upstreamChunks upstream i := by
  have hlive : yielded (relay upstream requestId idle created now) i = upstreamChunks upstream i :=
    yielded_live h.2
  rw [← hlive]
  refine Machine.collect_of_none hi fun j hj _ => ?_
  rcases Nat.eq_or_lt_of_le hj with rfl | hlt
  · rw [relay_firstFailure h]; rfl
  · rw [relay_after h hlt]; rfl

end Relay

/-- `out` relays the upstream exactly, or truncates it visibly. -/
structure ExactRelay (upstream : Nat → InnerPoll) (requestId : Str) (idle : Duration)
    (created : Instant) (now : Nat → Instant) (out : Nat → Polled) : Prop where
  /-- The chunks yielded so far are a prefix of the upstream's. -/
  chunks : ∀ n, ∃ k ≤ n, yielded out n = upstreamChunks upstream k
  /-- An end without an error is the upstream's own end, with every chunk yielded. -/
  cleanEnd : ∀ n, (out n).item = .ended → (∀ j < n, (out j).item ≠ .error) →
    upstream n = .ended ∧ (∀ j ≤ n, upstream j ≠ .error) ∧
      ∀ m, n ≤ m → yielded out m = upstreamChunks upstream m
  /-- The error is yielded by the first poll that fails, and by no other. -/
  error_iff : ∀ i, (out i).item = .error ↔ FirstFailure upstream idle created now i
  /-- Before the error come exactly the chunks before the failure, after it nothing. -/
  error_last : ∀ i, (out i).item = .error →
    yielded out i = upstreamChunks upstream i ∧ ∀ j, i < j → (out j).item = .ended
  /-- A poll before the failure is passed through. -/
  passed : ∀ i, (∀ j ≤ i, ¬ FailsAt upstream idle created now j) →
    (out i).item = (upstream i).relayed
  /-- The log is called once, with the error. -/
  logged : ∀ i, (out i).log =
    if (out i).item = .error then [AbortOnError.abortLine requestId (failureKind upstream i)]
    else []

/-- **The wrapper relays or truncates, and truncation is always an error.** -/
theorem abortOnError_exact {upstream : Nat → InnerPoll} (hend : StaysEnded upstream)
    (requestId : Str) (idle : Duration) (created : Instant) (now : Nat → Instant) :
    ExactRelay upstream requestId idle created now
      (relay upstream requestId idle created now) where
  chunks n := by
    rcases relay_cases upstream idle created now n with h | h | ⟨k, hk, h⟩
    · exact ⟨n, le_rfl, yielded_live fun j hj => h j hj.le⟩
    · exact ⟨n, le_rfl, yielded_live h.2⟩
    · exact ⟨k, hk.le, yielded_after h hk.le⟩
  cleanEnd n hn hne := by
    rcases relay_cases upstream idle created now n with h | h | ⟨k, hk, h⟩
    · have hu : upstream n = .ended := by
        rw [relay_live h] at hn
        cases hu : upstream n <;> simp_all [InnerPoll.relayed]
      refine ⟨hu, fun j hj he => h j hj (.inl he), fun m hm => yielded_live fun j hj hf => ?_⟩
      rcases Nat.le_total j n with hjn | hnj
      · exact h j hjn hf
      · -- an ended upstream neither errs nor stalls
        have := hend n j hnj hu
        rcases hf with hf | ⟨hf, -⟩ <;> rw [this] at hf <;> cases hf
    · rw [relay_firstFailure h] at hn
      cases hn
    · exact absurd (relay_item_error_iff.mpr h) (hne k hk)
  error_iff _ := relay_item_error_iff
  error_last i hi := by
    have h := relay_item_error_iff.mp hi
    exact ⟨yielded_after h le_rfl, fun j hj => by rw [relay_after h hj]⟩
  passed i h := by rw [relay_live h]
  logged i := by
    rcases relay_cases upstream idle created now i with h | h | ⟨k, hk, h⟩
    · rw [if_neg fun he => h i le_rfl (relay_item_error_iff.mp he).1, relay_live h]
    · rw [if_pos (relay_item_error_iff.mpr h), relay_firstFailure h]
    · rw [relay_after h hk]
      rfl

/-- One chunk, a stall, and the end: polled a second apart with half a second allowed. -/
def stalls : Nat → InnerPoll
  | 0 => .chunk [1, 2]
  | 1 => .pending
  | _ => .ended

theorem abortOnError_exact_stalls :
    ExactRelay stalls "r" (10 ^ 9 / 2) 0 secs (relay stalls "r" (10 ^ 9 / 2) 0 secs) :=
  abortOnError_exact (by
    intro i j hij hi
    match i, j with
    | 0, _ => cases hi
    | 1, _ => cases hi
    | i + 2, j + 2 => rfl) ..

end Saltnitor.ProxyStream
