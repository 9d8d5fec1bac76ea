import Saltnitor.FakeLlama.Home

/-!
# Home paths as they are spelled

On a JSON text the pass over home paths meets each string as it is spelled. `Legible` spellings
stay spellings: no home path is replaced that begins at the slash of an escape (`legible_iff`).
`Aligned` ones are rewritten as the strings they stand for are, one home path for one
(`Aligned.body`). No other spelling of a string without the placeholder is (`aligned_of_body`):
where the two passes part, the pass over the string is left with more text. Where the string holds
the placeholder, it can stand for a home path that only one of the passes replaces (`together_iff`).
-/

namespace Saltnitor.FakeLlama

open Rust Rewrite

/-- No home path begins in `u`, which `b` follows. -/
def Free (u b : Str) : Prop := ∀ p, p <:+ u → p ≠ [] → homeRest (p ++ b) = none

instance (u b : Str) : Decidable (Free u b) :=
  decidable_of_iff (∀ p ∈ u.tails, p ≠ [] → homeRest (p ++ b) = none)
    (forall_congr' fun p => by rw [List.mem_tails])

/-- Every home path the pass replaces begins at the glyph of its slash. -/
inductive Legible : Str → Prop
  | nil : Legible []
  | glyph {u b : Str} {c : Char} (h : Glyph u c) (hu : Free u b) (hb : Legible b) : Legible (u ++ b)
  | home {b r : Str} (h : homeRest b = some r) (hr : Legible r) : Legible b

/-- The pass replaces a home path of `b` where it replaces one of the text `b` reads as. -/
inductive Aligned : Str → Str → Prop
  | nil : Aligned [] []
  | glyph {u b t : Str} {c : Char} (h : Glyph u c) (hu : Free u b) (hc : homeRest (c :: t) = none)
      (hb : Aligned b t) : Aligned (u ++ b) (c :: t)
  | home {b r t q : Str} (h : homeRest b = some r) (h' : homeRest t = some q) (hr : Body r q)
      (ha : Aligned r q) : Aligned b t

variable {b d r t w user : Str}

theorem plain_placeholder : Plain placeholder := by decide

theorem plain_homeDir : Plain homeDir := by decide

theorem homePath_append (user r : Str) : homePath user ++ r = (homeDir ++ user) ++ '/' :: r := by
  rw [homePath, List.append_assoc, List.append_assoc, List.append_assoc]
  rfl

theorem homePath_cons (user r : Str) :
    homePath user ++ r = '/' :: (("home/" : Str) ++ (user ++ ['/']) ++ r) := rfl

theorem placeholder_cons (r : Str) : placeholder ++ r = '$' :: (("\x7bHOME\x7d/" : Str) ++ r) := rfl

/-! ## Spellings that stay spellings -/

theorem Legible.wellSpelled (h : Legible b) : WellSpelled (withoutHome b) := by
  suffices hbody : ∃ t, Body (withoutHome b) t from hbody.elim fun t ht => ht.wellSpelled
  induction h with
  | nil => exact ⟨[], .nil⟩
  | glyph h hu _ ih =>
    obtain ⟨t, ht⟩ := ih
    rw [withoutHome_append hu]
    exact ⟨_, .unit h ht⟩
  | home h _ ih =>
    obtain ⟨t, ht⟩ := ih
    rw [withoutHome_home h]
    exact ⟨_, plain_placeholder.body.append ht⟩

/-- Behind a home path a new glyph begins. -/
theorem Body.of_home (h : Body b t) (hr : homeRest b = some r) : ∃ q, Body r q := by
  obtain ⟨user, -, rfl⟩ := homeRest_eq_some.mp hr
  rw [homePath_append] at h
  obtain ⟨_, q, -, -, hq⟩ := h.cut_slash
  exact ⟨q, hq⟩

theorem length_homeRest_lt (h : homeRest b = some r) : r.length < b.length := by
  obtain ⟨user, -, rfl⟩ := homeRest_eq_some.mp h
  rw [homePath_append, List.length_append, List.length_cons]
  omega

/-- A home path replaced at an escaped slash leaves its backslash before the placeholder. -/
theorem legible_or (h : Body b t) : Legible b ∨ Lexer.inside.run (withoutHome b) = none := by
  induction hn : b.length using Nat.strong_induction_on generalizing b t with
  | _ n ih =>
    cases hr : homeRest b with
    | some r =>
      obtain ⟨q, hq⟩ := Body.of_home h hr
      refine (ih _ (hn ▸ length_homeRest_lt hr) hq rfl).imp (.home hr) fun hnone => ?_
      rw [withoutHome_home hr, Lexer.run_append, plain_placeholder.body.run]
      exact hnone
    | none =>
      cases h with
      | nil => exact .inl .nil
      | @unit u b t c hu hb =>
        have hlen := List.length_pos_iff.mpr hu.ne_nil
        rw [List.length_append] at hn
        by_cases hfree : Free u b
        · refine (ih _ (by omega) hb rfl).imp (.glyph hu hfree) fun hnone => ?_
          rw [withoutHome_append hfree, Lexer.run_append, hu.run]
          exact hnone
        · simp only [Free, not_forall] at hfree
          obtain ⟨p, ⟨a, rfl⟩, hne, hp⟩ := hfree
          obtain ⟨r', hr'⟩ := Option.ne_none_iff_exists'.mp hp
          obtain ⟨d, p, rfl⟩ := List.exists_cons_of_ne_nil hne
          obtain rfl : d = '/' := by
            by_contra hd
            exact hp (homeRest_of_ne hd)
          obtain ⟨rfl, rfl, rfl | rfl⟩ := hu.slash
          · exact absurd hr hp
          · right
            rw [show ['\\'] ++ ['/'] ++ b = '\\' :: (['/'] ++ b) from rfl,
              withoutHome_cons (homeRest_of_ne (by decide)), withoutHome_home hr']
            rfl

theorem legible_iff (h : WellSpelled b) : WellSpelled (withoutHome b) ↔ Legible b := by
  refine ⟨fun hw => (legible_or h).resolve_right fun hnone => ?_, Legible.wellSpelled⟩
  rw [hw.run] at hnone
  cases hnone

/-! ## Spellings that are rewritten as their strings are -/

theorem Aligned.legible (h : Aligned b t) : Legible b := by
  induction h with
  | nil => exact .nil
  | glyph h hu _ _ ih => exact .glyph h hu ih
  | home h _ _ _ ih => exact .home h ih

theorem Aligned.body (h : Aligned b t) : Body (withoutHome b) (withoutHome t) := by
  induction h with
  | nil => exact .nil
  | glyph h hu hc _ ih =>
    rw [withoutHome_append hu, withoutHome_cons hc]
    exact .unit h ih
  | home h h' _ _ ih =>
    rw [withoutHome_home h, withoutHome_home h']
    exact plain_placeholder.body.append ih

theorem aligned_self (h : Plain b) : Aligned b b := by
  induction b using home_induction with
  | nil => exact .nil
  | step c b hc ih =>
    obtain ⟨hplain, hb⟩ := List.forall_mem_cons.mp h
    have hfree : Free [c] b := by
      intro p hp hne
      rcases List.suffix_cons_iff.mp hp with rfl | hp
      · exact hc
      · exact absurd (List.suffix_nil.mp hp) hne
    exact @Aligned.glyph [c] b b c (.plain hplain) hfree hc (ih hb)
  | home b r hr ih =>
    obtain ⟨user, -, rfl⟩ := homeRest_eq_some.mp hr
    have hrest : Plain r := fun c hc => h c (List.mem_append_right _ hc)
    exact .home hr hr hrest.body (ih hrest)

/-- What a home path reads as looks like one, but for slashes in the name. -/
theorem body_homePath (h : Body (homePath user ++ r) t) : ∃ l q, t = homePath l ++ q ∧ Body r q := by
  rw [homePath_append] at h
  obtain ⟨s, q, rfl, hs, hq⟩ := h.cut_slash
  rw [List.append_assoc] at hs
  obtain ⟨s', he, hs'⟩ := plain_homeDir.body.of_append hs
  rcases List.eq_nil_or_concat s' with rfl | ⟨l, c, rfl⟩
  · generalize hu : user ++ ['/'] = u at hs'
    cases hs'
    exact absurd hu (by simp)
  · rw [List.concat_eq_append, ← List.append_assoc] at he
    exact ⟨l, q, by rw [homePath_append, (List.append_inj' he rfl).1], hq⟩

theorem first_home (t : Str) : withoutHome t = t ∨ ∃ p user q, IsUser user ∧
    t = p ++ (homePath user ++ q) ∧ withoutHome t = p ++ (placeholder ++ withoutHome q) := by
  induction t using home_induction with
  | nil => exact .inl rfl
  | step c t hc ih =>
    rw [withoutHome_cons hc]
    rcases ih with ih | ⟨p, user, q, hu, rfl, ih⟩
    · exact .inl (by rw [ih])
    · exact .inr ⟨c :: p, user, q, hu, rfl, by rw [ih]; rfl⟩
  | home t q hq =>
    obtain ⟨user, hu, rfl⟩ := homeRest_eq_some.mp hq
    exact .inr ⟨[], user, q, hu, rfl, withoutHome_home hq⟩

theorem Legible.first (h : Legible b) : withoutHome b = b ∨ ∃ a s user r, Body a s ∧
    b = a ++ (homePath user ++ r) ∧ withoutHome b = a ++ (placeholder ++ withoutHome r) ∧ Legible r := by
  induction h with
  | nil => exact .inl rfl
  | @glyph u b c h hu hb ih =>
    rw [withoutHome_append hu]
    rcases ih with ih | ⟨a, s, user, r, ha, rfl, ih, hr⟩
    · exact .inl (by rw [ih])
    · refine .inr ⟨u ++ a, c :: s, user, r, .unit h ha, ?_, ?_, hr⟩
      · rw [List.append_assoc]
      · rw [ih, List.append_assoc]
  | @home b r h hr =>
    obtain ⟨user, hu, rfl⟩ := homeRest_eq_some.mp h
    exact .inr ⟨[], [], user, r, .nil, rfl, withoutHome_home h, hr⟩

theorem count_homePath (l : Str) : (homePath l).count '/' = l.count '/' + 3 := by
  rw [homePath, List.count_append, List.count_append, Nat.add_left_comm]
  rfl

theorem IsUser.count (h : IsUser user) : user.count '/' = 0 :=
  List.count_eq_zero.mpr fun hm => (h.2 _ hm).1 rfl

/-- More text in front is not made up for: with it the `n`-th slash comes earlier, and at the first
home path either pass replaces the text in front is still there. -/
theorem eq_nil_of_body (hl : Legible b) (h : Body b w) (hd : ¬ placeholder <:+: d ++ w)
    (hs : Body (withoutHome b) (withoutHome (d ++ w))) : d = [] := by
  induction hn : b.length using Nat.strong_induction_on generalizing b w d with
  | _ n ih =>
    have hw : ¬ placeholder <:+: w := fun hi => hd (hi.trans (List.suffix_append ..).isInfix)
    rcases first_home (d ++ w) with ht | ⟨p, user, q, hu, ht, ht'⟩
    · rw [ht] at hs
      rcases hl.first with hb | ⟨a, s, user, r, ha, rfl, hb, hr⟩
      · rw [hb] at hs
        exact List.append_left_eq_self.mp (hs.unique h)
      · rw [hb] at hs
        obtain ⟨x, hx, hs⟩ := ha.of_append hs
        obtain ⟨y, rfl, -⟩ := plain_placeholder.body.of_append hs
        exact absurd ⟨s, y, by rw [hx, List.append_assoc]⟩ hd
    · rw [ht'] at hs
      rcases hl.first with hb | ⟨a, s, user', r, ha, rfl, hb, hr⟩
      · rw [hb] at hs
        refine absurd ?_ hw
        rw [h.unique hs]
        exact ⟨p, withoutHome q, by rw [List.append_assoc]⟩
      · rw [hb] at hs
        obtain ⟨x, hx, hs⟩ := ha.of_append hs
        obtain ⟨y, rfl, hy⟩ := plain_placeholder.body.of_append hs
        obtain ⟨z, rfl, hz⟩ := ha.of_append h
        obtain ⟨l, w', rfl, hw'⟩ := body_homePath hz
        have hp : ¬ placeholder <:+: p := fun hi => hd (by
          rw [ht]
          exact hi.trans (List.prefix_append ..).isInfix)
        have hs' : ¬ placeholder <:+: s := fun hi => hw (hi.trans (List.prefix_append ..).isInfix)
        obtain ⟨rfl, rfl⟩ := first_unique (by decide) hp hs' hx
        by_contra hne
        rcases Nat.eq_zero_or_pos (d.count '/') with hzero | hpos
        · have hslash : (d ++ p) ++ '/' :: (("home/" : Str) ++ (l ++ ['/']) ++ w') =
              p ++ '/' :: (("home/" : Str) ++ (user ++ ['/']) ++ q) := by
            rw [List.append_assoc]
            exact ht
          have hcount : (d ++ p).count '/' = p.count '/' := by rw [List.count_append, hzero, Nat.zero_add]
          exact hne (List.append_left_eq_self.mp (cut_unique hslash hcount).1)
        · have hcut : (p ++ homePath user) ++ q = (d ++ (p ++ homePath l)) ++ w' := by
            simpa only [List.append_assoc] using ht.symm
          have hcount : (p ++ homePath user).count '/' < (d ++ (p ++ homePath l)).count '/' := by
            simp only [List.count_append, count_homePath, hu.count]
            omega
          obtain ⟨e, he, rfl⟩ := cut_lt hcut hcount
          have hlen : r.length < n := by
            rw [homePath_append] at hn
            simp only [List.length_append, List.length_cons] at hn
            omega
          refine he (ih _ hlen hr hw' (fun hi => hd ?_) hy rfl)
          rw [ht]
          exact hi.trans ((List.suffix_append ..).trans (List.suffix_append ..)).isInfix

/-- **Only aligned spellings are rewritten as their strings are**, but for strings that hold the
placeholder from the start. -/
theorem aligned_of_body (hl : Legible b) (h : Body b t) (ht : ¬ placeholder <:+: t)
    (hs : Body (withoutHome b) (withoutHome t)) : Aligned b t := by
  induction hl generalizing t with
  | nil =>
    rw [h.unique .nil]
    exact .nil
  | @glyph u b c hu hfree hl ih =>
    obtain ⟨t, rfl, hb⟩ := h.of_glyph hu
    rw [withoutHome_append hfree] at hs
    obtain ⟨t', he, hs⟩ := hs.of_glyph hu
    have hc : homeRest (c :: t) = none := by
      by_contra hne
      obtain ⟨q, hq⟩ := Option.ne_none_iff_exists'.mp hne
      rw [withoutHome_home hq, placeholder_cons] at he
      have hdollar : c = '$' := (List.cons.inj he).1.symm
      exact hne (homeRest_of_ne (by rw [hdollar]; decide))
    rw [withoutHome_cons hc] at he
    rw [← (List.cons.inj he).2] at hs
    exact .glyph hu hfree hc (ih hb (fun hi => ht (hi.trans (List.suffix_cons ..).isInfix)) hs)
  | @home b r hr hl ih =>
    obtain ⟨user, hu, rfl⟩ := homeRest_eq_some.mp hr
    obtain ⟨l, w, rfl, hw⟩ := body_homePath h
    rw [withoutHome_home hr] at hs
    obtain ⟨x, he, hx⟩ := plain_placeholder.body.of_append hs
    cases hq : homeRest (homePath l ++ w) with
    | none =>
      rw [homePath_cons] at hq he
      rw [withoutHome_cons hq, placeholder_cons] at he
      exact absurd (List.cons.inj he).1 (by decide)
    | some q =>
      rw [withoutHome_home hq] at he
      rw [← List.append_cancel_left he] at hx
      obtain ⟨user', hu', hcut⟩ := homeRest_eq_some.mp hq
      have hq' : ¬ placeholder <:+: q := fun hi => ht (by
        rw [hcut]
        exact hi.trans (List.suffix_append ..).isInfix)
      rcases Nat.eq_zero_or_pos (l.count '/') with hzero | hpos
      · rw [homePath_append, homePath_append] at hcut
        have hcount : (homeDir ++ l).count '/' = (homeDir ++ user').count '/' := by
          rw [List.count_append, List.count_append, hzero, hu'.count]
        obtain rfl := (cut_unique hcut hcount).2
        exact .home hr hq hw (ih hw hq' hx)
      · have hcount : (homePath user').count '/' < (homePath l).count '/' := by
          rw [count_homePath, count_homePath, hu'.count]
          omega
        obtain ⟨e, hne, rfl⟩ := cut_lt hcut.symm hcount
        exact absurd (eq_nil_of_body hl hw hq' hx) hne

/-! ## Strings that hold the placeholder -/

/-- The two passes side by side, over a spelling and over a string: each time both leave the same
character, or both write the placeholder, for a home path or for one that is there. -/
inductive Together : Str → Str → Prop
  | nil : Together [] []
  | glyph {u b t : Str} {c : Char} (h : Glyph u c) (hu : Free u b) (hc : homeRest (c :: t) = none)
      (hb : Together b t) : Together (u ++ b) (c :: t)
  | home {b r t q : Str} (h : homeRest b = some r) (h' : homeRest t = some q) (hr : Together r q) :
      Together b t
  /-- The string has the placeholder where the spelling has a home path. -/
  | there {b r q : Str} (h : homeRest b = some r) (hq : Free placeholder q) (hr : Together r q) :
      Together b (placeholder ++ q)
  /-- The spelling has it. -/
  | spelled {u r t q : Str} (hu : Body u placeholder) (hr : Free u r) (h' : homeRest t = some q)
      (hq : Together r q) : Together (u ++ r) t

theorem Together.body (h : Together b t) : Body (withoutHome b) (withoutHome t) := by
  induction h with
  | nil => exact .nil
  | glyph h hu hc _ ih =>
    rw [withoutHome_append hu, withoutHome_cons hc]
    exact .unit h ih
  | home h h' _ ih =>
    rw [withoutHome_home h, withoutHome_home h']
    exact plain_placeholder.body.append ih
  | there h hq _ ih =>
    rw [withoutHome_home h, withoutHome_append hq]
    exact plain_placeholder.body.append ih
  | spelled hu hr h' _ ih =>
    rw [withoutHome_append hr, withoutHome_home h']
    exact hu.append ih

theorem Free.nil (b : Str) : Free [] b := fun _ hp hne => absurd (List.suffix_nil.mp hp) hne

theorem Free.cons {u : Str} {c : Char} (hc : homeRest (c :: (u ++ b)) = none) (hu : Free u b) :
    Free (c :: u) b := by
  intro p hp hne
  rcases List.suffix_cons_iff.mp hp with rfl | hp
  · exact hc
  · exact hu p hp hne

theorem Free.append {u v : Str} (hu : Free u (v ++ b)) (hv : Free v b) : Free (u ++ v) b := by
  rintro p ⟨a, hp⟩ hne
  obtain ⟨m, rfl, rfl⟩ | ⟨m, rfl, rfl⟩ := List.append_eq_append_iff.mp hp
  · rcases List.eq_nil_or_concat m with rfl | ⟨m, c, rfl⟩
    · exact hv v List.suffix_rfl hne
    · rw [List.append_assoc]
      exact hu _ (List.suffix_append ..) (by simp)
  · exact hv p (List.suffix_append ..) hne

/-- What the pass leaves was there: it writes a dollar sign first. -/
theorem withoutHome_eq_cons {c : Char} {x : Str} (hc : c ≠ '$' ∨ homeRest t = none)
    (h : withoutHome t = c :: x) : ∃ q, t = c :: q ∧ homeRest (c :: q) = none ∧ withoutHome q = x := by
  cases hr : homeRest t with
  | some q =>
    rw [withoutHome_home hr, placeholder_cons] at h
    rcases hc with hc | hc
    · exact absurd (List.cons.inj h).1.symm hc
    · cases hc.symm.trans hr
  | none =>
    cases t with
    | nil => cases h
    | cons d q =>
      rw [withoutHome_cons hr] at h
      obtain ⟨rfl, hx⟩ := List.cons.inj h
      exact ⟨q, rfl, hr, hx⟩

theorem withoutHome_eq_append {p x : Str} (hp : '$' ∉ p) (h : withoutHome t = p ++ x) :
    ∃ q, t = p ++ q ∧ Free p q ∧ withoutHome q = x := by
  induction p generalizing t with
  | nil => exact ⟨t, rfl, .nil t, h⟩
  | cons c p ih =>
    rw [List.mem_cons, not_or] at hp
    obtain ⟨q, rfl, hc, hq⟩ := withoutHome_eq_cons (.inl (Ne.symm hp.1)) h
    obtain ⟨q, rfl, hfree, hx⟩ := ih hp.2 hq
    exact ⟨q, rfl, hfree.cons hc, hx⟩

theorem Legible.eq_glyph {c : Char} {x : Str} (hl : Legible b) (hc : c ≠ '$' ∨ homeRest b = none)
    (h : Body (withoutHome b) (c :: x)) :
    ∃ u r, b = u ++ r ∧ Glyph u c ∧ Free u r ∧ Legible r ∧ Body (withoutHome r) x := by
  cases hl with
  | nil => cases h.unique .nil
  | glyph hg hu hl =>
    rw [withoutHome_append hu] at h
    obtain ⟨x', he, hx⟩ := h.of_glyph hg
    cases he
    exact ⟨_, _, rfl, hg, hu, hl, hx⟩
  | home hr hl =>
    rw [withoutHome_home hr] at h
    obtain ⟨y, he, -⟩ := plain_placeholder.body.of_append h
    rcases hc with hc | hc
    · exact absurd (List.cons.inj he).1 hc
    · cases hc.symm.trans hr

theorem Legible.eq_append {p x : Str} (hl : Legible b) (hp : '$' ∉ p)
    (h : Body (withoutHome b) (p ++ x)) :
    ∃ u r, b = u ++ r ∧ Body u p ∧ Free u r ∧ Legible r ∧ Body (withoutHome r) x := by
  induction p generalizing b with
  | nil => exact ⟨[], b, rfl, .nil, .nil b, hl, h⟩
  | cons c p ih =>
    rw [List.mem_cons, not_or] at hp
    obtain ⟨u, r, rfl, hg, hu, hr, h⟩ := hl.eq_glyph (.inl (Ne.symm hp.1)) h
    obtain ⟨v, r, rfl, hv, hfree, hr, hx⟩ := ih hr hp.2 h
    exact ⟨u ++ v, r, (List.append_assoc ..).symm, .unit hg hv, hu.append hfree, hr, hx⟩

theorem Legible.of_home (hl : Legible b) (h : homeRest b = some r) : Legible r := by
  cases hl with
  | nil => cases h
  | glyph hg hu _ => cases (hu _ List.suffix_rfl hg.ne_nil).symm.trans h
  | home h' hr =>
    cases h.symm.trans h'
    exact hr

/-- **The two passes come to the same exactly if they go side by side.** -/
theorem together_iff (hl : Legible b) : Body (withoutHome b) (withoutHome t) ↔ Together b t := by
  refine ⟨fun h => ?_, Together.body⟩
  have hdollar : '$' ∉ ("\x7bHOME\x7d/" : Str) := by decide
  induction hn : b.length + t.length using Nat.strong_induction_on generalizing b t with
  | _ n ih =>
    cases hb : homeRest b with
    | some r =>
      have hlen := length_homeRest_lt hb
      rw [withoutHome_home hb] at h
      obtain ⟨x, he, hx⟩ := plain_placeholder.body.of_append h
      cases ht : homeRest t with
      | some q =>
        have hlen' := length_homeRest_lt ht
        rw [withoutHome_home ht] at he
        rw [← List.append_cancel_left he] at hx
        exact .home hb ht (ih _ (by omega) (hl.of_home hb) hx rfl)
      | none =>
        obtain ⟨q, rfl, hc, hq⟩ := withoutHome_eq_cons (.inr ht) he
        obtain ⟨q, rfl, hfree, rfl⟩ := withoutHome_eq_append hdollar hq
        rw [List.length_cons, List.length_append] at hn
        exact .there hb (hfree.cons hc) (ih _ (by omega) (hl.of_home hb) hx rfl)
    | none =>
      cases ht : homeRest t with
      | some q =>
        have hlen := length_homeRest_lt ht
        rw [withoutHome_home ht] at h
        obtain ⟨u, r, rfl, hg, hu, hr, h⟩ := hl.eq_glyph (.inr hb) h
        obtain ⟨v, r, rfl, hv, hfree, hr, hx⟩ := hr.eq_append hdollar h
        rw [List.length_append, List.length_append] at hn
        rw [← List.append_assoc]
        exact .spelled (.unit hg hv) (hu.append hfree) ht (ih _ (by omega) hr hx rfl)
      | none =>
        cases t with
        | nil =>
          cases hl with
          | nil => exact .nil
          | glyph hg hu _ =>
            rw [withoutHome_append hu] at h
            obtain ⟨_, he, -⟩ := h.of_glyph hg
            cases he
          | home hr _ => cases hb.symm.trans hr
        | cons c t =>
          rw [withoutHome_cons ht] at h
          obtain ⟨u, r, rfl, hg, hu, hr, hx⟩ := hl.eq_glyph (.inr hb) h
          rw [List.length_append, List.length_cons] at hn
          exact .glyph hg hu ht (ih _ (by omega) hr hx rfl)

end Saltnitor.FakeLlama
