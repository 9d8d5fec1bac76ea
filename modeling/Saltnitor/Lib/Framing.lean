import Mathlib.Data.List.Basic

/-!
# Frames ended by a delimiter

`frames c s` are the parts of `s` that a `c` ends, `pending c s` what is behind the
last one. A reader that is fed a stream piece by piece keeps the pending part as
its buffer; `feedAll_eq` says that where the stream was cut makes no difference.
-/

namespace Framing

variable {α : Type*} {c : α} {s t : List α} {fs : List (List α)}

theorem exists_frames (c : α) (s : List α) :
    ∃ (fs : List (List α)) (r : List α),
      s = fs.flatMap (· ++ [c]) ++ r ∧ (∀ f ∈ fs, c ∉ f) ∧ c ∉ r := by
  induction s with
  | nil => exact ⟨[], [], rfl, fun _ hf => (nomatch hf), List.not_mem_nil⟩
  | cons x s ih =>
    obtain ⟨fs, r, rfl, hfs, hr⟩ := ih
    by_cases hx : c = x
    · refine ⟨[] :: fs, r, by simp [hx], ?_, hr⟩
      exact List.forall_mem_cons.mpr ⟨List.not_mem_nil, hfs⟩
    · cases fs with
      | nil => exact ⟨[], x :: r, rfl, hfs, by simp [hx, hr]⟩
      | cons f fs =>
        obtain ⟨hf, hfs⟩ := List.forall_mem_cons.mp hfs
        exact ⟨(x :: f) :: fs, r, by simp, List.forall_mem_cons.mpr ⟨by simp [hx, hf], hfs⟩, hr⟩

variable [BEq α]

/-- What a delimiter ends, without it. -/
def frames (c : α) (s : List α) : List (List α) := (s.splitOn c).dropLast

/-- What no delimiter has ended yet. -/
def pending (c : α) (s : List α) : List α := (s.splitOn c).getLast?.getD []

/-- A piece behind the buffer: the frames that are complete now, and the new buffer. -/
def feed (c : α) (buffer piece : List α) : List (List α) × List α :=
  (frames c (buffer ++ piece), pending c (buffer ++ piece))

def feedAll (c : α) : List α → List (List α) → List (List α) × List α
  | buffer, [] => ([], buffer)
  | buffer, piece :: pieces =>
    let (done, buffer) := feed c buffer piece
    let (later, buffer) := feedAll c buffer pieces
    (done ++ later, buffer)

theorem splitOn_eq (c : α) (s : List α) : s.splitOn c = frames c s ++ [pending c s] := by
  have hne := List.splitOn_ne_nil c s
  rw [frames, pending, List.getLast?_eq_some_getLast hne, Option.getD_some,
    List.dropLast_concat_getLast hne]

theorem eq_of_splitOn {fs : List (List α)} {r : List α} (h : s.splitOn c = fs ++ [r]) :
    frames c s = fs ∧ pending c s = r := by
  rw [splitOn_eq] at h
  exact ⟨(List.append_inj' h rfl).1, List.singleton_inj.mp (List.append_inj' h rfl).2⟩

variable [LawfulBEq α]

theorem frames_of_not_mem (h : c ∉ s) : frames c s = [] ∧ pending c s = s :=
  eq_of_splitOn (List.splitOn_eq_singleton h)

theorem frames_flatMap (h : ∀ f ∈ fs, c ∉ f) (s : List α) :
    frames c (fs.flatMap (· ++ [c]) ++ s) = fs ++ frames c s ∧
      pending c (fs.flatMap (· ++ [c]) ++ s) = pending c s := by
  refine eq_of_splitOn ?_
  induction fs with
  | nil => exact splitOn_eq c s
  | cons f fs ih =>
    rw [List.flatMap_cons, List.append_assoc, List.append_assoc, List.singleton_append,
      List.splitOn_append_cons_self_of_not_mem (h f (List.mem_cons_self ..)),
      ih fun g hg => h g (List.mem_cons_of_mem _ hg), List.cons_append, List.cons_append]

theorem frames_spec (c : α) (s : List α) :
    s = (frames c s).flatMap (· ++ [c]) ++ pending c s ∧ (∀ f ∈ frames c s, c ∉ f) ∧
      c ∉ pending c s := by
  obtain ⟨fs, r, rfl, hfs, hr⟩ := exists_frames c s
  obtain ⟨h₁, h₂⟩ := frames_flatMap hfs r
  obtain ⟨h₃, h₄⟩ := frames_of_not_mem hr
  rw [h₁, h₂, h₃, h₄, List.append_nil]
  exact ⟨rfl, hfs, hr⟩

/-- What comes behind a list sees only what is pending of it. -/
theorem frames_append (c : α) (s t : List α) :
    frames c (s ++ t) = frames c s ++ frames c (pending c s ++ t) ∧
      pending c (s ++ t) = pending c (pending c s ++ t) := by
  obtain ⟨hs, hf, -⟩ := frames_spec c s
  have h := frames_flatMap hf (pending c s ++ t)
  rwa [← List.append_assoc, ← hs] at h

theorem count_flatMap_frames (h : ∀ f ∈ fs, c ∉ f) : (fs.flatMap (· ++ [c])).count c = fs.length := by
  induction fs with
  | nil => rfl
  | cons f fs ih =>
    obtain ⟨hf, hfs⟩ := List.forall_mem_cons.mp h
    rw [List.flatMap_cons, List.count_append, List.count_append, List.count_eq_zero_of_not_mem hf,
      ih hfs, List.count_singleton_self, List.length_cons]
    omega

theorem length_frames (c : α) (s : List α) : (frames c s).length = s.count c := by
  obtain ⟨hs, hf, hr⟩ := frames_spec c s
  have hcount := congrArg (List.count c) hs
  rw [List.count_append, count_flatMap_frames hf, List.count_eq_zero_of_not_mem hr] at hcount
  omega

theorem frames_of_prefix (h : t <+: s) : frames c t = (frames c s).take (t.count c) := by
  obtain ⟨r, rfl⟩ := h
  rw [(frames_append c t r).1, ← length_frames, List.take_left]

/-- **Where the stream is cut makes no difference.** -/
theorem feedAll_eq {buffer : List α} (h : c ∉ buffer) (pieces : List (List α)) :
    feedAll c buffer pieces =
      (frames c (buffer ++ pieces.flatten), pending c (buffer ++ pieces.flatten)) := by
  induction pieces generalizing buffer with
  | nil =>
    obtain ⟨h₁, h₂⟩ := frames_of_not_mem h
    rw [List.flatten_nil, List.append_nil, h₁, h₂]
    rfl
  | cons piece pieces ih =>
    obtain ⟨h₁, h₂⟩ := frames_append c (buffer ++ piece) pieces.flatten
    have hb := (frames_spec c (buffer ++ piece)).2.2
    rw [feedAll, feed, List.flatten_cons, ← List.append_assoc, h₁, h₂]
    dsimp only
    rw [ih hb]

end Framing
