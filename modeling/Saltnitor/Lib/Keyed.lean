import Mathlib.Data.List.Induction
import Mathlib.Data.List.Nodup

/-!
# Rows with a key

`firsts` keeps the first row of every key. A table whose rows have distinct keys
takes updates one after another: `upsert` changes the row of the key, or adds a
new one behind the others if there is none. `merge_eq` says what a whole list of
updates leaves: the old rows, then the new ones in order, each as its last update
has it.
-/

namespace Keyed

variable {α β κ : Type*} [DecidableEq κ]

/-! ## The first of each key -/

section

variable (key : α → κ)

/-- The rows whose key was not seen, each key once. -/
def firstsFrom : List κ → List α → List α
  | _, [] => []
  | seen, a :: as => (if key a ∈ seen then [] else [a]) ++ firstsFrom (key a :: seen) as

def firsts (as : List α) : List α := firstsFrom key [] as

variable {key} {a : α} {as bs : List α} {seen : List κ}

theorem firstsFrom_append :
    firstsFrom key seen (as ++ bs) =
      firstsFrom key seen as ++ firstsFrom key ((as.map key).reverse ++ seen) bs := by
  induction as generalizing seen with
  | nil => rfl
  | cons a as ih =>
    rw [List.cons_append, firstsFrom, firstsFrom, ih, List.append_assoc, List.map_cons,
      List.reverse_cons, List.append_assoc, List.singleton_append]

theorem firsts_concat :
    firsts key (as ++ [a]) = firsts key as ++ if key a ∈ as.map key then [] else [a] := by
  rw [firsts, firsts, firstsFrom_append, firstsFrom, firstsFrom, List.append_nil, List.append_nil]
  simp only [List.mem_reverse]

theorem map_firsts : (firsts key as).map key = (as.map key).eraseDups := by
  induction as using List.reverseRecOn with
  | nil => rfl
  | append_singleton as a ih =>
    rw [firsts_concat, List.map_append, ih, List.map_append, List.map_singleton,
      List.eraseDups_append]
    congr 1
    by_cases h : key a ∈ as.map key
    · rw [if_pos h, List.removeAll, List.filter_cons_of_neg (by simpa using h)]
      rfl
    · rw [if_neg h, List.removeAll, List.filter_cons_of_pos (by simpa using h)]
      rfl

theorem mem_map_firsts {k : κ} : k ∈ (firsts key as).map key ↔ k ∈ as.map key := by
  rw [map_firsts, List.mem_eraseDups]

theorem nodup_firsts : ((firsts key as).map key).Nodup := by
  induction as using List.reverseRecOn with
  | nil => exact .nil
  | append_singleton as a ih =>
    rw [firsts_concat, List.map_append]
    split
    · rwa [List.map_nil, List.append_nil]
    · rename_i h
      refine ih.append (List.nodup_singleton _) ?_
      rw [List.map_singleton, List.disjoint_singleton, mem_map_firsts]
      exact h

theorem find?_of_mem_firsts (h : a ∈ firsts key as) :
    as.find? (fun b => key b = key a) = some a := by
  induction as using List.reverseRecOn with
  | nil => cases h
  | append_singleton as b ih =>
    rw [firsts_concat, List.mem_append] at h
    rw [List.find?_append]
    rcases h with h | h
    · rw [ih h]
      rfl
    · split at h
      · cases h
      · rename_i hn
        cases List.mem_singleton.mp h
        have hnone : as.find? (fun c => key c = key a) = none :=
          List.find?_eq_none.mpr fun c hc hk => hn (List.mem_map.mpr ⟨c, hc, of_decide_eq_true hk⟩)
        rw [hnone]
        simp

end

/-! ## Updates -/

/-- Change the row of `k`, or put a new one behind the others. -/
def upsert (key : α → κ) (k : κ) (upd : α → α) (new : Option α) (out : List α) : List α :=
  match out.findIdx? fun a => key a = k with
  | some i => out.modify i upd
  | none => out ++ new.toList

theorem upsert_of_mem {key : α → κ} {k : κ} {upd : α → α} {new : Option α} {out : List α}
    (hk : k ∈ out.map key) (hn : (out.map key).Nodup) :
    upsert key k upd new out = out.map fun a => if key a = k then upd a else a := by
  have hmodify : ∀ out : List α, k ∈ out.map key → (out.map key).Nodup →
      ∃ i, out.findIdx? (fun a => key a = k) = some i ∧
        out.modify i upd = out.map fun a => if key a = k then upd a else a := by
    intro out
    induction out with
    | nil => exact fun hk => nomatch hk
    | cons a out ih =>
      intro hk hn
      obtain ⟨ha, hn⟩ := List.nodup_cons.mp hn
      by_cases hak : key a = k
      · refine ⟨0, by rw [List.findIdx?_cons]; simp [hak], ?_⟩
        have hrest : out.map (fun b => if key b = k then upd b else b) = out := by
          refine (List.map_congr_left fun b hb => if_neg fun hbk => ha ?_).trans (List.map_id out)
          exact List.mem_map.mpr ⟨b, hb, hbk.trans hak.symm⟩
        rw [List.map_cons, if_pos hak, hrest]
        rfl
      · have hk : k ∈ out.map key := (List.mem_cons.mp hk).resolve_left (Ne.symm hak)
        obtain ⟨i, hi, hm⟩ := ih hk hn
        refine ⟨i + 1, by rw [List.findIdx?_cons, hi]; simp [hak], ?_⟩
        rw [List.map_cons, if_neg hak, ← hm]
        rfl
  obtain ⟨i, hi, hm⟩ := hmodify out hk hn
  rw [upsert, hi]
  exact hm

theorem upsert_of_not_mem {key : α → κ} {k : κ} {upd : α → α} {new : Option α} {out : List α}
    (hk : k ∉ out.map key) : upsert key k upd new out = out ++ new.toList := by
  have hnone : out.findIdx? (fun a => key a = k) = none :=
    List.findIdx?_eq_none_iff.mpr fun a ha => decide_eq_false fun he =>
      hk (List.mem_map.mpr ⟨a, ha, he⟩)
  rw [upsert, hnone]

/-- What updates have in common: they keep the key, the last one counts, and whether a key can be
added is a matter of the key. -/
structure Updates (key : α → κ) (keyOf : β → κ) (upd : β → α → α) (new : β → Option α) : Prop where
  key_upd : ∀ b a, key (upd b a) = key a
  key_new : ∀ b a, new b = some a → key a = keyOf b
  upd_new : ∀ b a, new b = some a → upd b a = a
  upd_upd : ∀ b b' a, keyOf b = keyOf b' → upd b' (upd b a) = upd b' a
  isSome_new : ∀ b b', keyOf b = keyOf b' → (new b).isSome = (new b').isSome

section

variable (key : α → κ) (keyOf : β → κ) (upd : β → α → α) (new : β → Option α)

def merge (out : List α) (bs : List β) : List α :=
  bs.foldl (fun out b => upsert key (keyOf b) (upd b) (new b) out) out

/-- The last update of a key. -/
def lastOf (bs : List β) (k : κ) : Option β := (bs.filter fun b => keyOf b = k).getLast?

/-- A row as its last update has it. -/
def settle (bs : List β) (a : α) : α :=
  match lastOf keyOf bs (key a) with
  | some b => upd b a
  | none => a

/-- The new rows, each as the first update of its key makes it. -/
def added (out : List α) (bs : List β) : List α :=
  ((firsts keyOf bs).filter fun b => keyOf b ∉ out.map key).filterMap new

variable {key keyOf upd new} {out : List α} {bs : List β} {b : β} {a : α}

theorem lastOf_concat {k : κ} :
    lastOf keyOf (bs ++ [b]) k = if keyOf b = k then some b else lastOf keyOf bs k := by
  rw [lastOf, List.filter_append, List.getLast?_append]
  by_cases h : keyOf b = k
  · rw [if_pos h, List.filter_cons_of_pos (by simpa using h)]
    rfl
  · rw [if_neg h, List.filter_cons_of_neg (by simpa using h)]
    rfl

theorem key_settle (h : Updates key keyOf upd new) : key (settle key keyOf upd bs a) = key a := by
  unfold settle
  split
  · exact h.key_upd _ _
  · rfl

theorem settle_concat (h : Updates key keyOf upd new) :
    settle key keyOf upd (bs ++ [b]) a =
      if key (settle key keyOf upd bs a) = keyOf b then upd b (settle key keyOf upd bs a)
      else settle key keyOf upd bs a := by
  rw [key_settle h]
  unfold settle
  rw [lastOf_concat]
  by_cases hk : key a = keyOf b
  · rw [if_pos hk, if_pos hk.symm]
    cases hl : lastOf keyOf bs (key a) with
    | none => rfl
    | some b' =>
      have hb' : keyOf b' = key a := of_decide_eq_true
        (List.mem_filter.mp (List.mem_of_getLast? hl)).2
      exact (h.upd_upd b' b a (hb'.trans hk)).symm
  · rw [if_neg hk, if_neg (Ne.symm hk)]

theorem added_concat :
    added key keyOf new out (bs ++ [b]) =
      added key keyOf new out bs ++
        if keyOf b ∈ bs.map keyOf ∨ keyOf b ∈ out.map key then [] else (new b).toList := by
  rw [added, firsts_concat, List.filter_append, List.filterMap_append, ← added]
  congr 1
  by_cases hb : keyOf b ∈ bs.map keyOf
  · rw [if_pos hb, if_pos (.inl hb)]
    rfl
  · rw [if_neg hb]
    by_cases ho : keyOf b ∈ out.map key
    · rw [if_pos (.inr ho), List.filter_cons_of_neg (by simpa using ho)]
      rfl
    · rw [if_neg (by simp only [hb, ho, or_self, not_false_eq_true]),
        List.filter_cons_of_pos (by simpa using ho)]
      cases hnew : new b <;> simp [hnew]

theorem mem_map_added (h : Updates key keyOf upd new) {k : κ} :
    k ∈ (added key keyOf new out bs).map key ↔
      k ∉ out.map key ∧ ∃ b ∈ bs, keyOf b = k ∧ (new b).isSome = true := by
  constructor
  · intro hk
    obtain ⟨a, ha, rfl⟩ := List.mem_map.mp hk
    obtain ⟨b, hb, hnew⟩ := List.mem_filterMap.mp ha
    obtain ⟨hb, hout⟩ := List.mem_filter.mp hb
    have hmem : b ∈ bs := List.mem_of_find?_eq_some (find?_of_mem_firsts hb)
    rw [h.key_new b a hnew]
    exact ⟨of_decide_eq_true hout, b, hmem, rfl, by rw [hnew]; rfl⟩
  · rintro ⟨hout, b, hb, rfl, hnew⟩
    obtain ⟨b', hb', hk⟩ := List.mem_map.mp
      (mem_map_firsts.mpr (List.mem_map_of_mem hb : keyOf b ∈ bs.map keyOf))
    rw [← h.isSome_new b' b hk, Option.isSome_iff_exists] at hnew
    obtain ⟨a, ha⟩ := hnew
    refine List.mem_map.mpr ⟨a, List.mem_filterMap.mpr ⟨b', List.mem_filter.mpr ⟨hb', ?_⟩, ha⟩, ?_⟩
    · rw [hk]
      exact decide_eq_true hout
    · rw [h.key_new b' a ha, hk]

theorem nodup_added (h : Updates key keyOf upd new) (hn : (out.map key).Nodup) :
    ((out ++ added key keyOf new out bs).map key).Nodup := by
  have hsub (l : List β) : ((l.filterMap new).map key).Sublist (l.map keyOf) := by
    induction l with
    | nil => exact .refl _
    | cons b l ih =>
      cases hnew : new b with
      | none => rw [List.filterMap_cons_none hnew]; exact ih.cons _
      | some a =>
        rw [List.filterMap_cons_some hnew, List.map_cons, List.map_cons, h.key_new b a hnew]
        exact ih.cons_cons _
  rw [List.map_append]
  refine hn.append (((hsub _).trans (List.filter_sublist.map keyOf)).nodup nodup_firsts) ?_
  exact fun k hk hk' => ((mem_map_added h).mp hk').1 hk

theorem added_concat_of_mem (h : Updates key keyOf upd new)
    (hk : keyOf b ∈ (out ++ added key keyOf new out bs).map key) :
    added key keyOf new out (bs ++ [b]) = added key keyOf new out bs := by
  have hold : keyOf b ∈ bs.map keyOf ∨ keyOf b ∈ out.map key := by
    rw [List.map_append, List.mem_append] at hk
    rcases hk with hk | hk
    · exact .inr hk
    · obtain ⟨-, b', hb', he, -⟩ := (mem_map_added h).mp hk
      exact .inl (List.mem_map.mpr ⟨b', hb', he⟩)
  rw [added_concat, if_pos hold, List.append_nil]

/-- An update of another key adds its row, if it has one: no update before it had. -/
theorem added_concat_of_not_mem (h : Updates key keyOf upd new)
    (hk : keyOf b ∉ (out ++ added key keyOf new out bs).map key) :
    added key keyOf new out (bs ++ [b]) = added key keyOf new out bs ++ (new b).toList := by
  rw [added_concat]
  split
  · rename_i hold
    rw [List.map_append, List.mem_append, not_or] at hk
    obtain ⟨b', hb', he⟩ := List.mem_map.mp (hold.resolve_right hk.1)
    cases hnew : new b with
    | none => rfl
    | some a =>
      have hb : (new b').isSome = true := by
        rw [h.isSome_new b' b he, hnew]
        rfl
      exact absurd ((mem_map_added h).mpr ⟨hk.1, b', hb', he, hb⟩) hk.2
  · rfl

/-- **What a list of updates leaves.** -/
theorem merge_eq (h : Updates key keyOf upd new) (hn : (out.map key).Nodup) :
    merge key keyOf upd new out bs =
      (out ++ added key keyOf new out bs).map (settle key keyOf upd bs) := by
  induction bs using List.reverseRecOn with
  | nil =>
    rw [show added key keyOf new out [] = [] from rfl, List.append_nil]
    exact (List.map_id out).symm
  | append_singleton bs b ih =>
    have hkeys : ((out ++ added key keyOf new out bs).map (settle key keyOf upd bs)).map key =
        (out ++ added key keyOf new out bs).map key := by
      rw [List.map_map]
      exact List.map_congr_left fun a _ => key_settle h
    have hstep : merge key keyOf upd new out (bs ++ [b]) =
        upsert key (keyOf b) (upd b) (new b) (merge key keyOf upd new out bs) := by
      rw [merge, List.foldl_concat]
      rfl
    rw [hstep, ih]
    by_cases hk : keyOf b ∈ (out ++ added key keyOf new out bs).map key
    · -- the row of the key is there, old or new
      rw [upsert_of_mem (by rwa [hkeys]) (by rw [hkeys]; exact nodup_added h hn), List.map_map,
        added_concat_of_mem h hk]
      exact List.map_congr_left fun a _ => (settle_concat h).symm
    · rw [upsert_of_not_mem (by rwa [hkeys]), added_concat_of_not_mem h hk, ← List.append_assoc]
      conv_rhs => rw [List.map_append]
      congr 1
      · refine List.map_congr_left fun a ha => ?_
        rw [settle_concat h, key_settle h, if_neg fun he => hk (List.mem_map.mpr ⟨a, ha, he⟩)]
      · cases hnew : new b with
        | none => rfl
        | some a =>
          have hlast : settle key keyOf upd (bs ++ [b]) a = a := by
            rw [settle, lastOf_concat, if_pos (h.key_new b a hnew).symm]
            exact h.upd_new b a hnew
          rw [Option.toList_some, List.map_singleton, hlast]

end

end Keyed
