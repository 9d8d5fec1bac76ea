import Saltnitor.FakeLlama.Engine
import Saltnitor.Lib.Pipe
import Saltnitor.Lib.Pool

/-!
# Streamed bodies

`stream_body` and `raw_stream` send their pieces from a task of their own, through a channel with
one place. `StreamBody.step` and `RawStreams.step` interleave the tasks, the clients and the crash;
`streams_run` and `counted_run` say what the recorder and the clients know after any of it.
-/

namespace Saltnitor.FakeLlama

open Rust

/-! ## `stream_body` -/

inductive CrashMode where
  /-- Abort the connection. -/
  | dropConnection
  | exitProcess
  deriving DecidableEq

/-- An item of the channel. -/
inductive Chunk where
  | piece (text : Str)
  | failed
  deriving DecidableEq

/-- What the task sends: from piece `i` on. -/
def outgoing (crashAfter : Option Nat) : Nat → List Str → List Chunk
  | _, [] => if crashAfter.isSome then [.failed] else []
  | i, piece :: pieces =>
    if crashAfter = some i then [.failed] else .piece piece :: outgoing crashAfter (i + 1) pieces

structure StreamBody where
  pipe : Pipe.State Chunk
  /-- The crash is recorded. -/
  crashed : Bool
  exited : Bool
  log : List Record

inductive BodyLabel where
  | pipe (l : Pipe.Label)
  | crash
  | exit
  deriving DecidableEq

/-- The task is at its crash. -/
def atCrash (p : Pipe.State Chunk) : Bool := p.toSend.head? = some .failed

/-- The task has been refused a piece. -/
def refused (p : Pipe.State Chunk) : Bool := p.closed && !p.toSend.isEmpty && !atCrash p

namespace StreamBody

def start (pieces : List Str) (crashAfter : Option Nat) : StreamBody where
  pipe := Pipe.start (outgoing crashAfter 0 pieces)
  crashed := false
  exited := false
  log := []

/-- The error is sent after the crash is recorded, by a process that goes on. -/
def step (path : Str) (mode : CrashMode) (st : StreamBody) : BodyLabel → Option StreamBody
  | .crash =>
    if st.exited = false ∧ st.crashed = false ∧ st.pipe.closed = false ∧ atCrash st.pipe = true then
      some { st with crashed := true, log := st.log ++ [.crash] }
    else none
  | .exit =>
    if st.exited = false ∧ st.crashed = true ∧ mode = .exitProcess then some { st with exited := true }
    else none
  | .pipe l =>
    if st.exited = true then none
    else if (l = .send ∨ l = .refuse) ∧ atCrash st.pipe = true ∧
        ¬ (st.crashed = true ∧ mode = .dropConnection) then none
    else (Pipe.step 1 st.pipe l).map fun p =>
      { st with
        pipe := p
        log := if l = .refuse ∧ atCrash st.pipe = false then st.log ++ [.disconnect path] else st.log }

end StreamBody

/-- One crash or one disconnect is recorded, if anything is. -/
def bodyLog (path : Str) (crashed : Bool) (p : Pipe.State Chunk) : List Record :=
  if crashed then [.crash] else if refused p then [.disconnect path] else []

/-- What the client and the recorder know of a streamed body. -/
structure Streams (path : Str) (mode : CrashMode) (items : List Chunk) (st : StreamBody) : Prop where
  /-- The client gets the first of the items, and all of them before the end. -/
  received : st.pipe.received <+: items
  whole : st.pipe.ended = true → st.pipe.received = items
  log : st.log = bodyLog path st.crashed st.pipe
  /-- It crashes when every piece before the crash is sent, and the client hears of it later. -/
  sent : st.crashed = true → ∀ c ∈ st.pipe.toSend, c = .failed
  heard : .failed ∈ st.pipe.received → st.crashed = true ∧ mode = .dropConnection
  /-- It is refused by a client that left before the end. -/
  left : refused st.pipe = true → st.pipe.reading = false ∧ st.pipe.ended = false
  exited : st.exited = true → st.crashed = true ∧ mode = .exitProcess

theorem outgoing_eq (crashAfter : Option Nat) (pieces : List Str) :
    outgoing crashAfter 0 pieces =
      match crashAfter with
      | none => pieces.map .piece
      | some k => (pieces.take k).map .piece ++ [.failed] := by
  suffices h : ∀ i, outgoing crashAfter i pieces =
      match crashAfter with
      | none => pieces.map .piece
      | some k => if i ≤ k then (pieces.take (k - i)).map .piece ++ [.failed]
        else pieces.map .piece ++ [.failed] by
    rw [h 0]
    cases crashAfter with
    | none => rfl
    | some k => simp
  intro i
  induction pieces generalizing i with
  | nil => cases crashAfter <;> simp [outgoing]
  | cons piece pieces ih =>
    rw [outgoing, ih (i + 1)]
    cases crashAfter with
    | none => rfl
    | some k =>
      dsimp only
      rcases Nat.lt_trichotomy i k with hlt | rfl | hgt
      · rw [if_neg (by simpa using (Nat.ne_of_lt hlt).symm), if_pos (by omega), if_pos (by omega),
          show k - i = k - (i + 1) + 1 by omega]
        rfl
      · simp
      · rw [if_neg (by simpa using (Nat.ne_of_gt hgt).symm), if_neg (by omega), if_neg (by omega)]
        rfl

/-- Nothing comes after the crash. -/
def CrashLast (items : List Chunk) : Prop := ∀ after, .failed :: after <:+ items → after = []

theorem crashLast_outgoing (crashAfter : Option Nat) (pieces : List Str) :
    CrashLast (outgoing crashAfter 0 pieces) := by
  rintro after ⟨before, h⟩
  rw [outgoing_eq] at h
  have hpiece (ps : List Str) : Chunk.failed ∉ ps.map .piece := by simp
  cases crashAfter with
  | none =>
    dsimp only at h
    refine absurd ?_ (hpiece pieces)
    rw [← h]
    exact List.mem_append_right _ (List.mem_cons_self ..)
  | some k =>
    rcases List.eq_nil_or_concat after with hnil | ⟨after, c, rfl⟩
    · exact hnil
    · rw [List.concat_eq_append, ← List.cons_append, ← List.append_assoc] at h
      have hmem : Chunk.failed ∈ (pieces.take k).map .piece := by
        rw [← (List.append_inj' h rfl).1]
        exact List.mem_append_right _ (List.mem_cons_self ..)
      exact absurd hmem (hpiece _)

/-- What holds beside the pipe's own invariant. -/
structure BodyInv (path : Str) (mode : CrashMode) (items : List Chunk) (st : StreamBody) : Prop where
  pipe : Pipe.Inv 1 items st.pipe
  log : st.log = bodyLog path st.crashed st.pipe
  sent : st.crashed = true → ∀ c ∈ st.pipe.toSend, c = .failed
  heard : .failed ∈ st.pipe.received ++ st.pipe.queue → st.crashed = true ∧ mode = .dropConnection
  exited : st.exited = true → st.crashed = true ∧ mode = .exitProcess

variable {path : Str} {mode : CrashMode} {items : List Chunk} {st st' : StreamBody} {l : BodyLabel}
  {p q : Pipe.State Chunk}

theorem refused_iff : refused p = true ↔ p.closed = true ∧ p.toSend ≠ [] ∧ atCrash p = false := by
  simp only [refused, Bool.and_eq_true, Bool.not_eq_true', List.isEmpty_eq_false_iff, and_assoc]

theorem refused_of_open (hc : p.closed = false) : refused p = false := by
  rw [refused, hc]
  rfl

theorem bodyLog_congr {crashed : Bool} (h : refused q = refused p) :
    bodyLog path crashed q = bodyLog path crashed p := by
  rw [bodyLog, bodyLog, h]

theorem BodyInv.streams (h : BodyInv path mode items st) : Streams path mode items st where
  received := h.pipe.prefix
  whole he := (h.pipe.ended he).2
  log := h.log
  sent := h.sent
  heard hmem := h.heard (List.mem_append_left _ hmem)
  left hr := by
    obtain ⟨hc, hne, -⟩ := refused_iff.mp hr
    refine ⟨h.pipe.closed hc hne, ?_⟩
    by_contra he
    exact hne (h.pipe.toSend_of_ended (by simpa using he))
  exited := h.exited

theorem BodyInv.start (path : Str) (mode : CrashMode) (pieces : List Str) (crashAfter : Option Nat) :
    BodyInv path mode (outgoing crashAfter 0 pieces) (.start pieces crashAfter) where
  pipe := Pipe.inv_start 1 _
  log := rfl
  sent h := nomatch h
  heard h := nomatch h
  exited h := nomatch h

theorem BodyInv.pipeStep (h : BodyInv path mode items st) {l : Pipe.Label} (hm : Pipe.Move 1 st.pipe l p)
    (hready : ¬ ((l = .send ∨ l = .refuse) ∧ atCrash st.pipe = true ∧
      ¬ (st.crashed = true ∧ mode = .dropConnection))) :
    BodyInv path mode items { st with
      pipe := p
      log := if l = .refuse ∧ atCrash st.pipe = false then st.log ++ [.disconnect path] else st.log } := by
  have hpipe := h.pipe.move hm
  have hlog := h.log
  cases hm with
  | @send x xs hx hc hr hroom =>
    refine ⟨hpipe, ?_, fun hcr c hmem => h.sent hcr c ?_, fun hmem => ?_, h.exited⟩
    · rw [if_neg (by simp), hlog]
      refine (bodyLog_congr ?_).symm
      rw [refused_of_open hc]
      exact refused_of_open hc
    · rw [hx]
      exact List.mem_cons_of_mem x hmem
    · rw [← List.append_assoc, List.mem_append, List.mem_singleton] at hmem
      rcases hmem with hmem | rfl
      · exact h.heard hmem
      · by_contra hno
        exact hready ⟨.inl rfl, by simp [atCrash, hx], hno⟩
  | refuse hc hr hx =>
    refine ⟨hpipe, ?_, h.sent, h.heard, h.exited⟩
    rw [bodyLog, refused_of_open hc] at hlog
    cases hat : atCrash st.pipe with
    | true =>
      have hcr : st.crashed = true := by
        by_contra hno
        exact hready ⟨.inr rfl, hat, fun hand => hno hand.1⟩
      rw [if_neg (by simp), hlog, bodyLog, hcr]
      rfl
    | false =>
      have hcr : st.crashed = false := by
        by_contra hcr
        obtain ⟨c, cs, hcs⟩ := List.exists_cons_of_ne_nil hx
        have hfailed := h.sent (by simpa using hcr) c (hcs ▸ List.mem_cons_self ..)
        have hno : atCrash st.pipe = true := by simp [atCrash, hcs, hfailed]
        cases hat.symm.trans hno
      have hrefused : refused { st.pipe with closed := true } = true := refused_iff.mpr ⟨rfl, hx, hat⟩
      rw [if_pos ⟨rfl, rfl⟩, hlog, hcr]
      show _ = bodyLog path false { st.pipe with closed := true }
      rw [bodyLog, hrefused]
      rfl
  | close hc hx =>
    refine ⟨hpipe, ?_, h.sent, h.heard, h.exited⟩
    have hrefused : refused { st.pipe with closed := true } = false := by simp [refused, hx]
    rw [if_neg (by simp), hlog]
    exact (bodyLog_congr (hrefused.trans (refused_of_open hc).symm)).symm
  | recv hx =>
    refine ⟨hpipe, ?_, h.sent, fun hmem => h.heard ?_, h.exited⟩
    · rw [if_neg (by simp), hlog]
      rfl
    · rw [hx]
      simpa using hmem
  | finish hr hc hq he =>
    refine ⟨hpipe, ?_, h.sent, h.heard, h.exited⟩
    rw [if_neg (by simp), hlog]
    rfl
  | leave hr =>
    refine ⟨hpipe, ?_, h.sent, fun hmem => h.heard ?_, h.exited⟩
    · rw [if_neg (by simp), hlog]
      rfl
    · exact List.mem_append_left _ (by simpa using hmem)

theorem BodyInv.step (hlast : CrashLast items) (h : BodyInv path mode items st)
    (hs : StreamBody.step path mode st l = some st') : BodyInv path mode items st' := by
  cases l with
  | crash =>
    simp only [StreamBody.step, Option.ite_none_right_eq_some, Option.some.injEq] at hs
    obtain ⟨⟨hexited, hcrashed, hclosed, hat⟩, rfl⟩ := hs
    refine ⟨h.pipe, ?_, fun _ c hc => ?_, fun hmem => ?_, fun he => ?_⟩
    · have hlog := h.log
      rw [bodyLog, hcrashed, refused_of_open hclosed] at hlog
      rw [hlog]
      rfl
    · simp only [atCrash, decide_eq_true_eq] at hat
      obtain ⟨after, hafter⟩ := List.head?_eq_some_iff.mp hat
      have hnil := hlast after (hafter ▸ h.pipe.suffix)
      rw [hafter, hnil] at hc
      exact List.mem_singleton.mp hc
    · cases hcrashed.symm.trans (h.heard hmem).1
    · cases hexited.symm.trans he
  | exit =>
    simp only [StreamBody.step, Option.ite_none_right_eq_some, Option.some.injEq] at hs
    obtain ⟨⟨-, hcrashed, hmode⟩, rfl⟩ := hs
    exact ⟨h.pipe, h.log, h.sent, h.heard, fun _ => ⟨hcrashed, hmode⟩⟩
  | pipe l =>
    simp only [StreamBody.step, Option.ite_none_left_eq_some] at hs
    obtain ⟨-, hready, hs⟩ := hs
    obtain ⟨p, hp, rfl⟩ := Option.map_eq_some_iff.mp hs
    exact h.pipeStep (Pipe.move_of_step hp) hready

theorem bodyInv_run {pieces : List Str} {crashAfter : Option Nat} {ls : List BodyLabel}
    (hr : Machine.run (StreamBody.step path mode) (.start pieces crashAfter) ls = some st) :
    BodyInv path mode (outgoing crashAfter 0 pieces) st :=
  Machine.run_inv (fun _ _ _ hi hs => hi.step (crashLast_outgoing crashAfter pieces) hs) hr
    (.start path mode pieces crashAfter)

/-! A client that stays is served to the end. -/

/-- The steps that are left, at most. -/
def StreamBody.rank (st : StreamBody) : Nat :=
  Pipe.rank st.pipe + (!st.crashed).toNat + (!st.exited).toNat

theorem rank_step (hs : StreamBody.step path mode st l = some st') : st'.rank < st.rank := by
  cases l with
  | crash =>
    simp only [StreamBody.step, Option.ite_none_right_eq_some, Option.some.injEq] at hs
    obtain ⟨⟨-, hcrashed, -⟩, rfl⟩ := hs
    simp only [StreamBody.rank, hcrashed, Bool.not_true, Bool.not_false, Bool.toNat_false, Bool.toNat_true]
    omega
  | exit =>
    simp only [StreamBody.step, Option.ite_none_right_eq_some, Option.some.injEq] at hs
    obtain ⟨⟨hexited, -⟩, rfl⟩ := hs
    simp only [StreamBody.rank, hexited, Bool.not_true, Bool.not_false, Bool.toNat_false, Bool.toNat_true]
    omega
  | pipe l =>
    simp only [StreamBody.step, Option.ite_none_left_eq_some] at hs
    obtain ⟨-, -, hs⟩ := hs
    obtain ⟨p, hp, rfl⟩ := Option.map_eq_some_iff.mp hs
    have hlt := Pipe.rank_move (Pipe.move_of_step hp)
    simp only [StreamBody.rank]
    omega

/-- While the client is there and the process goes on, something happens. -/
theorem exists_bodyStep (mode : CrashMode) (hr : st.pipe.reading = true) (he : st.pipe.ended = false)
    (hx : st.exited = false) : ∃ l, l ≠ .pipe .leave ∧ (StreamBody.step path mode st l).isSome = true := by
  obtain ⟨l, hl, hstep⟩ := Pipe.exists_step Nat.one_pos hr he
  by_cases hready : (l = .send ∨ l = .refuse) ∧ atCrash st.pipe = true ∧
      ¬ (st.crashed = true ∧ mode = .dropConnection)
  · obtain ⟨hl, hat, hno⟩ := hready
    have hclosed : st.pipe.closed = false := by
      obtain ⟨p, hp⟩ := Option.isSome_iff_exists.mp hstep
      cases Pipe.move_of_step hp with
      | send _ hc _ _ => exact hc
      | refuse hc _ _ => exact hc
      | _ => simp at hl
    cases hc : st.crashed with
    | false =>
      refine ⟨.crash, nofun, ?_⟩
      rw [StreamBody.step, if_pos ⟨hx, hc, hclosed, hat⟩]
      rfl
    | true =>
      have hmode : mode = .exitProcess := by
        cases mode with
        | exitProcess => rfl
        | dropConnection => exact absurd ⟨hc, rfl⟩ hno
      refine ⟨.exit, nofun, ?_⟩
      rw [StreamBody.step, if_pos ⟨hx, hc, hmode⟩]
      rfl
  · refine ⟨.pipe l, fun h => hl (BodyLabel.pipe.inj h), ?_⟩
    rw [StreamBody.step, if_neg (by rw [hx]; decide), if_neg hready, Option.isSome_map]
    exact hstep

/-- **What a streamed body comes to**, in any interleaving of its task, its client and a crash. -/
theorem streams_run {pieces : List Str} {crashAfter : Option Nat} {ls : List BodyLabel}
    (hr : Machine.run (StreamBody.step path mode) (.start pieces crashAfter) ls = some st) :
    Streams path mode (outgoing crashAfter 0 pieces) st ∧
      ls.length + st.rank ≤ 2 * (outgoing crashAfter 0 pieces).length + 5 ∧
      (st.pipe.reading = true → st.pipe.ended = false → st.exited = false →
        ∃ l, l ≠ .pipe .leave ∧ (StreamBody.step path mode st l).isSome = true) := by
  exact ⟨(bodyInv_run hr).streams, Machine.rank_run (fun _ _ _ => rank_step) hr, exists_bodyStep mode⟩

/-- The second piece is never sent: the client has the first, and the connection breaks. -/
theorem streams_run_crash : ∃ st, Machine.run (StreamBody.step "/v1/models" .dropConnection)
      (.start ["a", "b"] (some 1))
      [.pipe .send, .crash, .pipe .recv, .pipe .send, .pipe .close, .pipe .recv, .pipe .leave] = some st ∧
    st.pipe.received = [.piece "a", .failed] ∧
    Streams "/v1/models" .dropConnection [.piece "a", .failed] st := by
  have hrun : ((Machine.run (StreamBody.step "/v1/models" .dropConnection) (.start ["a", "b"] (some 1))
      [.pipe .send, .crash, .pipe .recv, .pipe .send, .pipe .close, .pipe .recv, .pipe .leave]).map
        fun st => st.pipe.received) = some [.piece "a", .failed] := by
    decide +kernel
  obtain ⟨st, hst, hreceived⟩ := Option.map_eq_some_iff.mp hrun
  exact ⟨st, hst, hreceived, (streams_run hst).1⟩

/-! ## `raw_stream` -/

/-- A stream of pieces as they are, with the chunks the task has recorded so far. -/
structure RawStream where
  path : Str
  items : List Str
  pipe : Pipe.State Str
  recorded : Nat

def RawStream.start (path : Str) (items : List Str) : RawStream where
  path
  items
  pipe := Pipe.start items
  recorded := 0

/-- The pieces the task has sent. -/
def RawStream.sent (s : RawStream) : Nat := s.items.length - s.pipe.toSend.length

/-- All streams, with the counter and the recorder they share; an event has the place of the stream
it is of. -/
structure RawStreams where
  streams : List RawStream
  inFlight : Nat
  events : List (Nat × Record)

def RawStreams.init : RawStreams := ⟨[], 0, []⟩

inductive RawLabel where
  | opened (path : Str) (items : List Str)
  /-- The task records the piece it has sent. -/
  | noted (i : Nat)
  | pipe (i : Nat) (l : Pipe.Label)
  deriving DecidableEq

/-- A step of the task, not of its client. -/
def ofTask : Pipe.Label → Bool
  | .send | .refuse | .close => true
  | .recv | .finish | .leave => false

/-- `Tracked` counts its body out when it is dropped, which is a disconnect before the end. -/
def RawStreams.step (st : RawStreams) : RawLabel → Option RawStreams
  | .opened path items =>
    some { st with streams := st.streams ++ [.start path items], inFlight := st.inFlight + 1 }
  | .noted i =>
    (st.streams[i]?).bind fun s =>
      if s.recorded < s.sent then
        some { st with
          streams := st.streams.set i { s with recorded := s.recorded + 1 }
          events := st.events ++ [(i, .chunkSent s.path s.recorded)] }
      else none
  | .pipe i l =>
    (st.streams[i]?).bind fun s =>
      if ofTask l = true ∧ s.recorded ≠ s.sent then none
      else (Pipe.step 1 s.pipe l).map fun p =>
        { streams := st.streams.set i { s with pipe := p }
          inFlight := if l = .leave then st.inFlight - 1 else st.inFlight
          events := if l = .leave ∧ s.pipe.ended = false then st.events ++ [(i, .disconnect s.path)]
            else st.events }

/-- The events of stream `i`. -/
def eventsOf (events : List (Nat × Record)) (i : Nat) : List Record :=
  (events.filter fun e => e.1 = i).map Prod.snd

def Record.isChunk : Record → Bool
  | .chunkSent .. => true
  | _ => false

/-- What is known of one stream. -/
structure Counted (i : Nat) (s : RawStream) (events : List (Nat × Record)) : Prop where
  received : s.pipe.received <+: s.items
  whole : s.pipe.ended = true → s.pipe.received = s.items
  /-- The chunks are recorded in order, each once. -/
  chunks : (eventsOf events i).filter Record.isChunk = (List.range s.recorded).map (.chunkSent s.path)
  /-- What is sent is recorded, or about to be. -/
  sent : s.recorded ≤ s.sent ∧ s.sent ≤ s.recorded + 1
  /-- Nothing else is recorded but a disconnect, once, if the client left before the end. -/
  others : (eventsOf events i).filter (fun e => !e.isChunk) =
    if s.pipe.reading = false ∧ s.pipe.ended = false then [.disconnect s.path] else []
  /-- The record is one piece behind the client at most, and the client, while it is there, one
  piece behind the record. -/
  behind : s.pipe.received.length ≤ s.recorded + 1
  ahead : s.pipe.reading = true → s.recorded ≤ s.pipe.received.length + 1

/-- What holds of one stream beside. -/
structure RawInv (i : Nat) (s : RawStream) (events : List (Nat × Record)) : Prop where
  pipe : Pipe.Inv 1 s.items s.pipe
  chunks : (eventsOf events i).filter Record.isChunk = (List.range s.recorded).map (.chunkSent s.path)
  others : (eventsOf events i).filter (fun e => !e.isChunk) =
    if s.pipe.reading = false ∧ s.pipe.ended = false then [.disconnect s.path] else []
  sent : s.recorded ≤ s.sent ∧ s.sent ≤ s.recorded + 1

variable {i j : Nat} {s : RawStream} {rs rs' : RawStreams} {events : List (Nat × Record)} {e : Record}

theorem RawInv.counted (h : RawInv i s events) : Counted i s events where
  received := h.pipe.prefix
  whole he := (h.pipe.ended he).2
  chunks := h.chunks
  sent := h.sent
  others := h.others
  behind := by
    have hle := h.pipe.length_received
    have hsent := h.sent.2
    unfold RawStream.sent at hsent
    omega
  ahead hr := by
    obtain ⟨lost, hitems, hlost⟩ := h.pipe.parts
    have hlen := congrArg List.length hitems
    rw [hlost hr] at hlen
    simp only [List.length_append, List.length_nil] at hlen
    have hsent := h.sent.1
    have hb := h.pipe.bounded
    unfold RawStream.sent at hsent
    omega

theorem eventsOf_concat_self : eventsOf (events ++ [(i, e)]) i = eventsOf events i ++ [e] := by
  simp [eventsOf]

theorem eventsOf_concat_ne (h : i ≠ j) : eventsOf (events ++ [(i, e)]) j = eventsOf events j := by
  simp [eventsOf, h]

theorem RawInv.other (h : RawInv j s events) (hij : i ≠ j) : RawInv j s (events ++ [(i, e)]) := by
  refine ⟨h.pipe, ?_, ?_, h.sent⟩
  · rw [eventsOf_concat_ne hij, h.chunks]
  · rw [eventsOf_concat_ne hij, h.others]

/-- The streams are as they are known to be, and the counter counts the clients that are there. -/
structure AllCounted (rs : RawStreams) : Prop where
  inv : ∀ i s, rs.streams[i]? = some s → RawInv i s rs.events
  places : ∀ e ∈ rs.events, e.1 < rs.streams.length
  inFlight : rs.inFlight = rs.streams.countP fun s => s.pipe.reading

theorem RawInv.start {path : Str} {items : List Str} (h : eventsOf events i = []) :
    RawInv i (.start path items) events where
  pipe := Pipe.inv_start 1 items
  chunks := by rw [h]; rfl
  others := by rw [h]; rfl
  sent := by
    have hzero : (RawStream.start path items).sent = 0 := Nat.sub_self _
    rw [hzero]
    exact ⟨Nat.le_refl 0, Nat.zero_le _⟩

theorem RawInv.noted (h : RawInv i s events) (hlt : s.recorded < s.sent) :
    RawInv i { s with recorded := s.recorded + 1 } (events ++ [(i, .chunkSent s.path s.recorded)]) := by
  refine ⟨h.pipe, ?_, ?_, ?_⟩
  · rw [eventsOf_concat_self, List.filter_append, h.chunks, List.range_succ, List.map_append]
    rfl
  · rw [eventsOf_concat_self, List.filter_append, h.others]
    exact List.append_nil _
  · have hle := h.sent.2
    exact ⟨hlt, Nat.le_succ_of_le hle⟩

theorem RawInv.pipeStep (h : RawInv i s events) {l : Pipe.Label} {p : Pipe.State Str}
    (hm : Pipe.Move 1 s.pipe l p) (htask : ¬ (ofTask l = true ∧ s.recorded ≠ s.sent)) :
    RawInv i { s with pipe := p }
      (if l = .leave ∧ s.pipe.ended = false then events ++ [(i, .disconnect s.path)] else events) := by
  have hpipe := h.pipe.move hm
  have hothers := h.others
  cases hm with
  | @send x xs hx hc hr hroom =>
    rw [if_neg (by simp)]
    refine ⟨hpipe, h.chunks, hothers, ?_⟩
    have hrec : s.recorded = s.sent := by
      by_contra hne
      exact htask ⟨rfl, hne⟩
    have hlen := h.pipe.length_received
    unfold RawStream.sent at hrec ⊢
    rw [hx, List.length_cons] at hrec hlen
    dsimp only
    omega
  | refuse hc hr hx | close hc hx | recv hx =>
    rw [if_neg (by simp)]
    exact ⟨hpipe, h.chunks, hothers, h.sent⟩
  | finish hr hc hq he =>
    rw [if_neg (by simp)]
    refine ⟨hpipe, h.chunks, ?_, h.sent⟩
    rw [hothers, hr]
    rfl
  | leave hr =>
    rw [if_neg (by simp [hr])] at hothers
    by_cases he : s.pipe.ended = false
    · rw [if_pos ⟨rfl, he⟩]
      refine ⟨hpipe, ?_, ?_, h.sent⟩
      · rw [eventsOf_concat_self, List.filter_append, h.chunks]
        exact List.append_nil _
      · rw [eventsOf_concat_self, List.filter_append, hothers]
        exact (if_pos ⟨rfl, he⟩).symm
    · rw [if_neg fun hand => he hand.2]
      refine ⟨hpipe, h.chunks, ?_, h.sent⟩
      rw [hothers]
      exact (if_neg fun hand => he hand.2).symm

theorem AllCounted.init : AllCounted .init := ⟨fun _ _ h => by simp [RawStreams.init] at h, nofun, rfl⟩

theorem AllCounted.step {l : RawLabel} (h : AllCounted rs) (hs : RawStreams.step rs l = some rs') :
    AllCounted rs' := by
  cases l with
  | opened path items =>
    cases hs
    refine ⟨fun j t hj => ?_, fun e he => ?_, ?_⟩
    · rcases Pool.getElem?_concat_cases hj with hj | ⟨rfl, rfl⟩
      · exact h.inv j t hj
      · refine .start (List.map_eq_nil_iff.mpr (List.filter_eq_nil_iff.mpr fun e he hplace => ?_))
        have hlt := h.places e he
        rw [decide_eq_true_eq] at hplace
        omega
    · have hlt := h.places e he
      rw [List.length_append]
      omega
    · rw [List.countP_append, h.inFlight]
      rfl
  | noted i =>
    obtain ⟨s, hi, hs⟩ := Option.bind_eq_some_iff.mp hs
    simp only [Option.ite_none_right_eq_some, Option.some.injEq] at hs
    obtain ⟨hlt, rfl⟩ := hs
    refine ⟨fun j t hj => ?_, fun e he => ?_, ?_⟩
    · rcases Pool.getElem?_set_cases hj with ⟨rfl, rfl⟩ | ⟨hij, hj⟩
      · exact (h.inv _ s hi).noted hlt
      · exact (h.inv j t hj).other hij.symm
    · rw [List.length_set]
      rcases List.mem_append.mp he with he | he
      · exact h.places e he
      · rw [List.mem_singleton.mp he]
        exact (List.getElem?_eq_some_iff.mp hi).1
    · have hcount := Pool.countP_set (P := fun s => s.pipe.reading)
        (a := { s with recorded := s.recorded + 1 }) hi
      rw [h.inFlight]
      dsimp only at hcount ⊢
      omega
  | pipe i l =>
    obtain ⟨s, hi, hs⟩ := Option.bind_eq_some_iff.mp hs
    simp only [Option.ite_none_left_eq_some] at hs
    obtain ⟨htask, hs⟩ := hs
    obtain ⟨p, hp, rfl⟩ := Option.map_eq_some_iff.mp hs
    have hm := Pipe.move_of_step hp
    refine ⟨fun j t hj => ?_, fun e he => ?_, ?_⟩
    · rcases Pool.getElem?_set_cases hj with ⟨rfl, rfl⟩ | ⟨hij, hj⟩
      · exact (h.inv _ s hi).pipeStep hm htask
      · dsimp only
        split
        · exact (h.inv j t hj).other hij.symm
        · exact h.inv j t hj
    · rw [List.length_set]
      dsimp only at he
      split at he
      · rcases List.mem_append.mp he with he | he
        · exact h.places e he
        · rw [List.mem_singleton.mp he]
          exact (List.getElem?_eq_some_iff.mp hi).1
      · exact h.places e he
    · have hcount := Pool.countP_set (P := fun s => s.pipe.reading) (a := { s with pipe := p }) hi
      rw [h.inFlight]
      dsimp only at hcount ⊢
      cases hm with
      | leave hr =>
        rw [if_pos rfl]
        rw [hr] at hcount
        simp only [Bool.toNat_true, Bool.toNat_false] at hcount
        omega
      | _ =>
        rw [if_neg (by simp)]
        dsimp only at hcount
        omega

/-- **What is known of the raw streams**, however many there are and however they interleave. -/
theorem counted_run {ls : List RawLabel} (hr : Machine.run RawStreams.step .init ls = some rs) :
    rs.inFlight = rs.streams.countP (fun s => s.pipe.reading) ∧
      ∀ i s, rs.streams[i]? = some s → Counted i s rs.events := by
  have h : AllCounted rs := Machine.run_inv (fun _ _ _ h hs => h.step hs) hr .init
  exact ⟨h.inFlight, fun i s hi => (h.inv i s hi).counted⟩

/-- Two streams, the first one left after its first piece. -/
theorem counted_run_two : ∃ rs, Machine.run RawStreams.step .init
      [.opened "/a" ["x", "y"], .opened "/b" [], .pipe 0 .send, .pipe 0 .recv, .pipe 0 .leave,
        .noted 0, .pipe 0 .refuse, .pipe 1 .close, .pipe 1 .finish] = some rs ∧
    rs.inFlight = 1 ∧ eventsOf rs.events 0 = [.disconnect "/a", .chunkSent "/a" 0] ∧
    ∀ i s, rs.streams[i]? = some s → Counted i s rs.events := by
  have hrun : ((Machine.run RawStreams.step .init
      [.opened "/a" ["x", "y"], .opened "/b" [], .pipe 0 .send, .pipe 0 .recv, .pipe 0 .leave,
        .noted 0, .pipe 0 .refuse, .pipe 1 .close, .pipe 1 .finish]).map
          fun rs => (rs.inFlight, eventsOf rs.events 0)) =
        some (1, [.disconnect "/a", .chunkSent "/a" 0]) := by
    decide +kernel
  obtain ⟨rs, hrs, he⟩ := Option.map_eq_some_iff.mp hrun
  obtain ⟨hflight, hevents⟩ := Prod.mk.inj he
  exact ⟨rs, hrs, hflight, hevents, (counted_run hrs).2⟩

end Saltnitor.FakeLlama
