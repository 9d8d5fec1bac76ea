import Mathlib.Data.List.Infix
import Mathlib.Data.List.Count

/-!
# Leftmost rewriting with a mark

A `Finder` says what matches at the front of a list: a part that is kept, then
a part that is replaced. `rewrite` scans from the left, puts a mark for every
replaced part and goes on behind it. With a mark in brackets, a word that has no
bracket and is not inside the mark's body (`Avoids`) occurs in the result only
where it occurred before (`infix_of_rewrite`), so a pass undoes nothing that an
earlier pass did, and what every match contains occurs nowhere afterwards
(`not_infix_rewrite`).
-/

namespace Rewrite

variable {α : Type*}

/-- What matches at the front of a list: how many elements are kept, how many replaced. -/
structure Finder (α : Type*) where
  find : List α → Option (ℕ × ℕ)
  pos : ∀ {s k d}, find s = some (k, d) → 0 < d
  le : ∀ {s k d}, find s = some (k, d) → k + d ≤ s.length

/-- Skip the first elements, then rewrite. -/
def Finder.go (F : Finder α) (mark : List α) : ℕ → List α → List α
  | _, [] => []
  | skip + 1, _ :: s => F.go mark skip s
  | 0, c :: s =>
    match F.find (c :: s) with
    | some (k, d) => (c :: s).take k ++ mark ++ F.go mark (k + d - 1) s
    | none => c :: F.go mark 0 s

/-- Replace every match, from the left. -/
def Finder.rewrite (F : Finder α) (mark s : List α) : List α := F.go mark 0 s

variable {F : Finder α} {mark s t w : List α} {c : α} {k d : ℕ}

theorem go_eq_drop (n : ℕ) : F.go mark n s = F.rewrite mark (s.drop n) := by
  induction s generalizing n with
  | nil => cases n <;> rfl
  | cons c s ih =>
    cases n with
    | zero => rfl
    | succ n => exact ih n

@[simp] theorem rewrite_nil : F.rewrite mark [] = [] := rfl

theorem find_nil : F.find [] = none := by
  cases h : F.find [] with
  | none => rfl
  | some m =>
    have hp := F.pos h
    have hl := F.le h
    rw [List.length_nil] at hl
    omega

theorem rewrite_cons (h : F.find (c :: s) = none) :
    F.rewrite mark (c :: s) = c :: F.rewrite mark s := by
  rw [Finder.rewrite, Finder.go, h]
  rfl

theorem rewrite_match (h : F.find s = some (k, d)) :
    F.rewrite mark s = s.take k ++ mark ++ F.rewrite mark (s.drop (k + d)) := by
  cases s with
  | nil => rw [find_nil] at h; cases h
  | cons c s =>
    have hp := F.pos h
    rw [Finder.rewrite, Finder.go, h]
    simp only [go_eq_drop]
    rw [show k + d = (k + d - 1) + 1 by omega, List.drop_succ_cons, Nat.add_sub_cancel]

theorem scan_induction (F : Finder α) {P : List α → Prop} (nil : P [])
    (step : ∀ c s, F.find (c :: s) = none → P s → P (c :: s))
    (found : ∀ s k d, F.find s = some (k, d) → P (s.drop (k + d)) → P s) (s : List α) : P s := by
  induction h : s.length using Nat.strong_induction_on generalizing s with
  | _ n ih =>
    cases s with
    | nil => exact nil
    | cons c s =>
      cases hf : F.find (c :: s) with
      | none => exact step c s hf (ih s.length (by rw [← h]; exact Nat.lt_succ_self _) s rfl)
      | some m =>
        have hp := F.pos hf
        refine found _ m.1 m.2 hf (ih _ ?_ _ rfl)
        rw [List.length_drop, ← h, List.length_cons]
        omega

/-! ## Where a word of the result comes from -/

theorem infix_append_cons {a b : List α} {x : α} (hx : x ∉ w) :
    w <:+: a ++ x :: b ↔ w <:+: a ∨ w <:+: b := by
  constructor
  · rintro ⟨p, q, e⟩
    rw [List.append_eq_append_iff] at e
    obtain ⟨r, rfl, -⟩ | ⟨r, hr, hq⟩ := e
    · exact .inl ⟨p, r, rfl⟩
    · rw [List.append_eq_append_iff] at hr
      obtain ⟨m, rfl, rfl⟩ | ⟨m, -, hm⟩ := hr
      · cases r with
        | nil => exact .inl ⟨p, [], by simp⟩
        | cons y r =>
          cases hq
          exact absurd (by simp) hx
      · cases m with
        | nil =>
          cases w with
          | nil => exact .inl (List.nil_infix)
          | cons y w =>
            simp only [List.nil_append] at hm
            subst hm
            cases hq
            exact absurd (by simp) hx
        | cons y m =>
          subst hm
          cases hq
          exact .inr ⟨m, q, by simp⟩
  · rintro (h | h)
    · exact h.trans (List.prefix_append ..).isInfix
    · exact h.trans ((List.suffix_cons ..).trans (List.suffix_append ..)).isInfix

theorem prefix_append_cons {a b : List α} {x : α} (hx : x ∉ w) (h : w <+: a ++ x :: b) :
    w <+: a := by
  obtain ⟨q, e⟩ := h
  rw [List.append_eq_append_iff] at e
  obtain ⟨r, rfl, -⟩ | ⟨r, rfl, hq⟩ := e
  · exact List.prefix_append ..
  · cases r with
    | nil => simp
    | cons y r =>
      cases hq
      exact absurd (by simp) hx

/-- A mark that has its first element once begins where it is first found. -/
theorem first_unique {a b x y body : List α} {l : α} (hl : l ∉ body) (ha : ¬ l :: body <:+: a)
    (hb : ¬ l :: body <:+: b) (h : a ++ (l :: body ++ x) = b ++ (l :: body ++ y)) : a = b ∧ x = y := by
  have hnil {e x y : List α} (he : ¬ l :: body <:+: e) (h : l :: body ++ x = e ++ (l :: body ++ y)) :
      e = [] := by
    cases e with
    | nil => rfl
    | cons d e =>
      obtain ⟨rfl, htail⟩ := List.cons.inj h
      obtain ⟨f, rfl, -⟩ | ⟨f, rfl, hf⟩ := List.append_eq_append_iff.mp htail
      · exact absurd ⟨[], f, rfl⟩ he
      · cases f with
        | nil => exact absurd ⟨[], [], by simp⟩ he
        | cons c f => exact absurd (by simp [(List.cons.inj hf).1]) hl
  have hsplit := h
  rw [List.append_eq_append_iff] at hsplit
  obtain ⟨e, rfl, he⟩ | ⟨e, rfl, he⟩ := hsplit
  · obtain rfl := hnil (fun hi => hb (hi.trans (List.suffix_append ..).isInfix)) he
    exact ⟨(List.append_nil a).symm, List.append_cancel_left he⟩
  · obtain rfl := hnil (fun hi => ha (hi.trans (List.suffix_append ..).isInfix)) he
    exact ⟨List.append_nil b, List.append_cancel_left he.symm⟩

section Cut

variable [DecidableEq α] {a b x y : List α} {c : α}

theorem cut_unique (h : a ++ c :: x = b ++ c :: y) (hc : a.count c = b.count c) : a = b ∧ x = y := by
  have hsplit := h
  rw [List.append_eq_append_iff] at hsplit
  obtain ⟨e, rfl, he⟩ | ⟨e, rfl, he⟩ := hsplit
  · cases e with
    | nil => exact ⟨(List.append_nil a).symm, (List.cons.inj he).2⟩
    | cons d e =>
      obtain ⟨rfl, -⟩ := List.cons.inj he
      rw [List.count_append, List.count_cons_self] at hc
      omega
  · cases e with
    | nil => exact ⟨List.append_nil b, (List.cons.inj he).2.symm⟩
    | cons d e =>
      obtain ⟨rfl, -⟩ := List.cons.inj he
      rw [List.count_append, List.count_cons_self] at hc
      omega

theorem cut_lt (h : a ++ x = b ++ y) (hc : a.count c < b.count c) : ∃ d, d ≠ [] ∧ x = d ++ y := by
  obtain ⟨d, rfl, hd⟩ | ⟨d, rfl, -⟩ := List.append_eq_append_iff.mp h
  · refine ⟨d, ?_, hd⟩
    rintro rfl
    rw [List.append_nil] at hc
    exact Nat.lt_irrefl _ hc
  · rw [List.count_append] at hc
    omega

end Cut

section Mark

variable {l r : α} {body : List α}

/-- A mark in brackets. -/
abbrev bracket (l r : α) (body : List α) : List α := l :: (body ++ [r])

/-- The word has no bracket and is not inside the body of the mark. -/
structure Avoids (l r : α) (body w : List α) : Prop where
  left : l ∉ w
  right : r ∉ w
  body : ¬ w <:+: body

theorem Avoids.ne_nil (h : Avoids l r body w) : w ≠ [] := by
  rintro rfl
  exact h.body List.nil_infix

theorem Avoids.infix_iff (h : Avoids l r body w) {a b : List α} :
    w <:+: a ++ bracket l r body ++ b ↔ w <:+: a ∨ w <:+: b := by
  rw [List.append_assoc, List.cons_append, infix_append_cons h.left, List.append_assoc,
    List.singleton_append, infix_append_cons h.right]
  exact or_congr_right (or_iff_right h.body)

theorem prefix_of_rewrite (hl : l ∉ w) (h : w <+: F.rewrite (bracket l r body) s) : w <+: s := by
  induction s using scan_induction F generalizing w with
  | nil => exact h
  | step c s hf ih =>
    rw [rewrite_cons hf] at h
    cases w with
    | nil => exact List.nil_prefix
    | cons x w =>
      rw [List.cons_prefix_cons] at h ⊢
      exact ⟨h.1, ih (fun hm => hl (List.mem_cons_of_mem _ hm)) h.2⟩
  | found s k d hf _ =>
    rw [rewrite_match hf, List.append_assoc, List.cons_append] at h
    exact (prefix_append_cons hl h).trans (List.take_prefix ..)

theorem infix_of_rewrite (hw : Avoids l r body w) (h : w <:+: F.rewrite (bracket l r body) s) :
    w <:+: s := by
  induction s using scan_induction F with
  | nil => exact h
  | step c s hf ih =>
    have hp (h : w <+: F.rewrite (bracket l r body) (c :: s)) := prefix_of_rewrite hw.left h
    rw [rewrite_cons hf] at h hp
    rcases List.infix_cons_iff.mp h with h | h
    · exact (hp h).isInfix
    · exact (ih h).trans (List.suffix_cons ..).isInfix
  | found s k d hf ih =>
    rw [rewrite_match hf, hw.infix_iff] at h
    rcases h with h | h
    · exact h.trans (List.take_prefix ..).isInfix
    · exact (ih h).trans (List.drop_suffix ..).isInfix

/-- A word that always matches where it stands, and is in no kept part, is gone afterwards. -/
theorem not_infix_rewrite (hw : Avoids l r body w) (hits : ∀ t, w <+: t → F.find t ≠ none)
    (kept : ∀ t k d, F.find t = some (k, d) → ¬ w <:+: t.take k) :
    ¬ w <:+: F.rewrite (bracket l r body) s := by
  induction s using scan_induction F with
  | nil =>
    rw [rewrite_nil, List.infix_nil]
    exact hw.ne_nil
  | step c s hf ih =>
    intro h
    have hp (h : w <+: F.rewrite (bracket l r body) (c :: s)) := prefix_of_rewrite hw.left h
    rw [rewrite_cons hf] at h hp
    rcases List.infix_cons_iff.mp h with h | h
    · exact hits _ (hp h) hf
    · exact ih h
  | found s k d hf ih =>
    rw [rewrite_match hf, hw.infix_iff]
    exact not_or_intro (kept s k d hf) ih

end Mark

/-! ## Lists that are not changed -/

theorem rewrite_eq_self (h : ∀ t k d, t <:+ s → F.find t = some (k, d) → (t.drop k).take d = mark) :
    F.rewrite mark s = s := by
  induction s using scan_induction F with
  | nil => rfl
  | step c s hf ih =>
    rw [rewrite_cons hf, ih fun t k d ht => h t k d (ht.trans (List.suffix_cons ..))]
  | found s k d hf ih =>
    rw [rewrite_match hf, ih fun t k' d' ht => h t k' d' (ht.trans (List.drop_suffix ..)),
      ← h s k d (List.suffix_refl s) hf, ← List.drop_drop, List.append_assoc,
      List.take_append_drop, List.take_append_drop]

theorem rewrite_of_none (h : ∀ t, t <:+ s → F.find t = none) : F.rewrite mark s = s :=
  rewrite_eq_self fun t k d ht hf => by rw [h t ht] at hf; cases hf

theorem rewrite_append {p : List α} (h : ∀ u, u <:+ p → u ≠ [] → F.find (u ++ s) = none) :
    F.rewrite mark (p ++ s) = p ++ F.rewrite mark s := by
  induction p with
  | nil => rfl
  | cons c p ih =>
    have hc : F.find (c :: (p ++ s)) = none := h (c :: p) (List.suffix_refl _) (List.cons_ne_nil _ _)
    rw [List.cons_append, rewrite_cons hc, ih fun u hu => h u (hu.trans (List.suffix_cons ..)),
      List.cons_append]

/-! ## Literal words -/

variable [DecidableEq α]

/-- A word, replaced as a whole. -/
def Finder.literal (p : List α) (hp : p ≠ []) : Finder α where
  find s := if p <+: s then some (0, p.length) else none
  pos h := by
    split at h
    · cases h
      exact List.length_pos_iff.mpr hp
    · cases h
  le h := by
    split at h
    · cases h
      rw [Nat.zero_add]
      exact List.IsPrefix.length_le ‹_›
    · cases h

variable {p : List α} {hp : p ≠ []}

theorem literal_eq_some : (Finder.literal p hp).find s = some (k, d) ↔
    p <+: s ∧ k = 0 ∧ d = p.length := by
  change (if p <+: s then some (0, p.length) else none) = _ ↔ _
  split <;> simp_all [eq_comm]

theorem literal_eq_none : (Finder.literal p hp).find s = none ↔ ¬ p <+: s := by
  change (if p <+: s then some (0, p.length) else none) = _ ↔ _
  split <;> simp_all

theorem not_infix_literal {l r : α} {body : List α} (hw : Avoids l r body p) :
    ¬ p <:+: (Finder.literal p hp).rewrite (bracket l r body) s := by
  refine not_infix_rewrite hw (fun t ht => ?_) (fun t k d hf => ?_)
  · rw [Ne, literal_eq_none, not_not]
    exact ht
  · obtain ⟨-, rfl, -⟩ := literal_eq_some.mp hf
    rw [List.take_zero, List.infix_nil]
    exact hp

theorem literal_eq_self (h : ¬ p <:+: s) : (Finder.literal p hp).rewrite mark s = s :=
  rewrite_of_none fun _ ht => literal_eq_none.mpr fun hpt => h (hpt.isInfix.trans ht.isInfix)

theorem literal_append {a b : List α} (ha : ∀ u, u <:+ a → u ≠ [] → ¬ p <+: u ++ (p ++ b))
    (hb : ¬ p <:+: b) : (Finder.literal p hp).rewrite mark (a ++ (p ++ b)) = a ++ mark ++ b := by
  rw [rewrite_append fun u hu hne => literal_eq_none.mpr (ha u hu hne),
    rewrite_match (literal_eq_some.mpr ⟨List.prefix_append .., rfl, rfl⟩), List.take_zero,
    List.nil_append, Nat.zero_add, List.drop_left, literal_eq_self hb, List.append_assoc]

variable (mark s hp) in
/-- How a literal pass changes the number of `l`s and the length, with `n` matches. -/
theorem literal_count {l : α} (hl : l ∉ p) (hm : mark.count l = 1) :
    ∃ n, ((Finder.literal p hp).rewrite mark s).count l = s.count l + n ∧
      ((Finder.literal p hp).rewrite mark s).length + n * p.length = s.length + n * mark.length ∧
      (n = 0 → ¬ p <:+: s) := by
  induction s using scan_induction (Finder.literal p hp) with
  | nil => exact ⟨0, rfl, by simp, fun _ h => hp (List.infix_nil.mp h)⟩
  | step c s hf ih =>
    obtain ⟨n, hc, hlen, hn⟩ := ih
    refine ⟨n, ?_, ?_, fun h0 h => ?_⟩
    · rw [rewrite_cons hf, List.count_cons, List.count_cons, hc]
      omega
    · rw [rewrite_cons hf, List.length_cons, List.length_cons]
      omega
    · rcases List.infix_cons_iff.mp h with h | h
      · exact literal_eq_none.mp hf h
      · exact hn h0 h
  | found s k d hf ih =>
    obtain ⟨n, hc, hlen, -⟩ := ih
    obtain ⟨⟨t, rfl⟩, rfl, rfl⟩ := literal_eq_some.mp hf
    rw [Nat.zero_add, List.drop_left] at hc hlen
    refine ⟨n + 1, ?_, ?_, fun h0 => absurd h0 n.succ_ne_zero⟩
    · rw [rewrite_match hf, Nat.zero_add, List.drop_left, List.take_zero, List.nil_append,
        List.count_append, List.count_append, hm, hc, List.count_eq_zero.mpr hl]
      omega
    · rw [rewrite_match hf, Nat.zero_add, List.drop_left, List.take_zero, List.nil_append,
        List.length_append, List.length_append, Nat.succ_mul, Nat.succ_mul]
      omega

/-! ## A head and a run of one class -/

section Headed

variable {head : List α → Option ℕ} {cls : α → Bool}

omit [DecidableEq α]

/-- What `Finder.headed` finds. -/
def headedFind (head : List α → Option ℕ) (cls : α → Bool) (s : List α) : Option (ℕ × ℕ) :=
  (head s).bind fun k =>
    if (s.drop k).takeWhile cls = [] then none else some (k, ((s.drop k).takeWhile cls).length)

theorem headedFind_eq_some : headedFind head cls s = some (k, d) ↔
    head s = some k ∧ (s.drop k).takeWhile cls ≠ [] ∧ ((s.drop k).takeWhile cls).length = d := by
  simp only [headedFind, Option.bind_eq_some_iff, Option.ite_none_left_eq_some, Option.some.injEq,
    Prod.mk.injEq]
  constructor
  · rintro ⟨_, hk, hne, rfl, rfl⟩
    exact ⟨hk, hne, rfl⟩
  · rintro ⟨hk, hne, rfl⟩
    exact ⟨k, hk, hne, rfl, rfl⟩

theorem headedFind_eq_none : headedFind head cls s = none ↔
    ∀ k, head s = some k → (s.drop k).takeWhile cls = [] := by
  simp only [headedFind, Option.bind_eq_none_iff, ite_eq_left_iff, reduceCtorEq, imp_false, not_not]

/-- A kept head, and behind it the longest run of a class of elements, which must not be empty. -/
def Finder.headed (head : List α → Option ℕ) (cls : α → Bool) : Finder α where
  find := headedFind head cls
  pos h := by
    obtain ⟨-, hne, rfl⟩ := headedFind_eq_some.mp h
    exact List.length_pos_iff.mpr hne
  le {s k d} h := by
    obtain ⟨-, hne, rfl⟩ := headedFind_eq_some.mp h
    have hle := (List.takeWhile_prefix cls (l := s.drop k)).length_le
    have hpos := List.length_pos_iff.mpr hne
    rw [List.length_drop] at hle
    omega

end Headed

end Rewrite
