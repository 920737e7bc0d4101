import DemoStorage.SortedSearch
import Mathlib.Data.List.Sort

/-!
# Tables kept sorted by a comparison function

A comparison function of the C library returns an integer whose sign is the order. A table is an
allocated array and a count of its used entries. Binary search and insertion from the back keep
the entries strictly ascending and never leave the array as long as it has a free entry.
-/

namespace DemoStorage.ComparedTables
open SortedSearch

/-- The signs are those of a strict linear order. -/
structure Lawful {α : Type*} (cmp : α → α → ℤ) : Prop where
  eq_zero : ∀ {a b}, cmp a b = 0 ↔ a = b
  swap : ∀ {a b}, 0 < cmp a b ↔ cmp b a < 0
  trans : ∀ {a b c}, cmp a b < 0 → cmp b c < 0 → cmp a c < 0

/-- Strictly ascending. -/
def Ascending {α : Type*} (cmp : α → α → ℤ) (xs : List α) : Prop :=
  xs.Pairwise fun a b => cmp a b < 0

variable {α : Type*} {cmp : α → α → ℤ}

section Order

theorem Lawful.asymm (h : Lawful cmp) {a b : α} (hab : cmp a b < 0) : ¬ cmp b a < 0 := by
  have hba := h.swap.mpr hab
  omega

theorem Lawful.irrefl (h : Lawful cmp) (a : α) : ¬ cmp a a < 0 := by
  have haa : cmp a a = 0 := h.eq_zero.mpr rfl
  omega

theorem Lawful.lt_of_ne (h : Lawful cmp) {a b : α} (hab : cmp a b ≤ 0) (hne : a ≠ b) :
    cmp a b < 0 :=
  lt_of_le_of_ne hab fun h0 => hne (h.eq_zero.mp h0)

theorem Ascending.nodup (h : Lawful cmp) {xs : List α} (hs : Ascending cmp xs) : xs.Nodup := by
  refine List.Pairwise.imp ?_ hs
  rintro a _ hab rfl
  exact h.irrefl a hab

/-- There is one ascending list of given elements. -/
theorem Ascending.ext (h : Lawful cmp) {xs ys : List α} (hx : Ascending cmp xs)
    (hy : Ascending cmp ys) (hmem : ∀ a, a ∈ xs ↔ a ∈ ys) : xs = ys := by
  have hperm := (List.perm_ext_iff_of_nodup (hx.nodup h) (hy.nodup h)).mpr hmem
  exact hperm.eq_of_pairwise (fun a b _ _ hab hba => absurd hba (h.asymm hab)) hx hy

end Order

section Search

/-- The binary search of the C library; `cmp` compares the key with an entry. -/
def bsearchFrom (cmp : α → ℤ) (xs : List α) : ℕ → ℕ → ℕ → Option α
  | 0, _, _ => none
  | fuel + 1, lo, hi =>
    if lo < hi then
      match xs[(lo + hi) / 2]? with
      | none => none
      | some a =>
        if cmp a < 0 then bsearchFrom cmp xs fuel lo ((lo + hi) / 2)
        else if 0 < cmp a then bsearchFrom cmp xs fuel ((lo + hi) / 2 + 1) hi
        else some a
    else none

def bsearch (cmp : α → ℤ) (xs : List α) : Option α := bsearchFrom cmp xs xs.length 0 xs.length

theorem bsearchFrom_some {c : α → ℤ} {xs : List α} {fuel lo hi : ℕ} {a : α}
    (h : bsearchFrom c xs fuel lo hi = some a) : a ∈ xs ∧ c a = 0 := by
  induction fuel generalizing lo hi with
  | zero => cases h
  | succ fuel ih =>
    rw [bsearchFrom] at h
    split_ifs at h with hlt
    split at h
    · cases h
    · rename_i b hb
      split_ifs at h with hneg hpos
      · exact ih h
      · exact ih h
      · cases h
        exact ⟨List.mem_of_getElem? hb, by omega⟩

/-- The order of the signs. -/
abbrev order (cmp : α → α → ℤ) : LT α := ⟨fun a b => cmp a b < 0⟩

abbrev decidableOrder (cmp : α → α → ℤ) : @DecidableLT α (order cmp) :=
  fun a b => inferInstanceAs (Decidable (cmp a b < 0))

/-- The search is the one of the order of the signs. -/
theorem bsearchFrom_eq (h : Lawful cmp) (xs : List α) (k : α) (fuel lo hi : ℕ) :
    bsearchFrom (cmp k) xs fuel lo hi =
      @searchFrom α α (order cmp) (decidableOrder cmp) id xs k fuel lo hi := by
  induction fuel generalizing lo hi with
  | zero => rfl
  | succ fuel ih =>
    unfold bsearchFrom searchFrom
    by_cases hlt : lo < hi
    · rw [if_pos hlt, if_pos hlt]
      cases xs[(lo + hi) / 2]? with
      | none => rfl
      | some a =>
        dsimp only [id]
        rcases lt_trichotomy (cmp k a) 0 with hneg | h0 | hpos
        · rw [if_pos hneg]
          exact (ih _ _).trans (if_pos hneg).symm
        · have hnot : ¬ cmp a k < 0 := by
            rw [← h.swap]
            omega
          have hnot' : ¬ cmp k a < 0 := by omega
          have hnot'' : ¬ 0 < cmp k a := by omega
          rw [if_neg hnot', if_neg hnot'']
          exact ((if_neg hnot').trans (if_neg hnot)).symm
        · have hnot : ¬ cmp k a < 0 := by omega
          rw [if_neg hnot, if_pos hpos]
          exact (ih _ _).trans ((if_neg hnot).trans (if_pos (h.swap.mp hpos))).symm
    · rw [if_neg hlt, if_neg hlt]

/-- In an ascending list the search finds exactly what is there. -/
theorem bsearch_isSome_iff (h : Lawful cmp) {xs : List α} (hs : Ascending cmp xs) (k : α) :
    (bsearch (cmp k) xs).isSome ↔ k ∈ xs := by
  constructor
  · intro hfound
    obtain ⟨a, ha⟩ := Option.isSome_iff_exists.mp hfound
    obtain ⟨hmem, h0⟩ := bsearchFrom_some ha
    rwa [h.eq_zero.mp h0]
  · intro hk
    let _ := order cmp
    let _ := decidableOrder cmp
    have : Std.Asymm fun a b : α => a < b := ⟨fun _ _ hab => h.asymm hab⟩
    have hfound : search id xs k = some k := @search_eq_some α α _ _ id _ _ hs k hk
    rw [bsearch, bsearchFrom_eq h]
    exact Option.isSome_iff_exists.mpr ⟨k, hfound⟩

end Search

section Insertion

/-- Write to an entry of an array; there is nothing to write to behind its end. -/
def writeEntry (xs : List α) (i : ℕ) (a : α) : Option (List α) :=
  if i < xs.length then some (xs.set i a) else none

/-- Make room for an entry from the back: every entry that it does not follow moves up. -/
def shiftInsert (cmp : α → ℤ) (a : α) : ℕ → List α → Option (List α)
  | 0, xs => writeEntry xs 0 a
  | p + 1, xs =>
    xs[p]?.bind fun previous =>
      if 0 < cmp previous then writeEntry xs (p + 1) a
      else (writeEntry xs (p + 1) previous).bind (shiftInsert cmp a p)

variable (cmp) in
/-- Not behind. -/
def NotAfter (a b : α) : Prop := cmp a b ≤ 0

instance (cmp : α → α → ℤ) : DecidableRel (NotAfter cmp) :=
  fun a b => inferInstanceAs (Decidable (cmp a b ≤ 0))

/-- An entry that everything precedes comes last. -/
theorem orderedInsert_of_after {xs : List α} {a : α} (h : ∀ b ∈ xs, ¬ NotAfter cmp a b) :
    xs.orderedInsert (NotAfter cmp) a = xs ++ [a] := by
  induction xs with
  | nil => rfl
  | cons b xs ih =>
    rw [List.orderedInsert_of_not_le _ xs (h b List.mem_cons_self),
      ih fun c hc => h c (List.mem_cons_of_mem _ hc), List.cons_append]

/-- A last entry that the new one does not follow stays last. -/
theorem orderedInsert_append {xs : List α} {a b : α} (h : NotAfter cmp a b) :
    (xs ++ [b]).orderedInsert (NotAfter cmp) a = xs.orderedInsert (NotAfter cmp) a ++ [b] := by
  induction xs with
  | nil => exact List.orderedInsert_cons_of_le _ [] h
  | cons c xs ih =>
    by_cases hc : NotAfter cmp a c
    · rw [List.cons_append, List.orderedInsert_cons_of_le _ _ hc,
        List.orderedInsert_cons_of_le _ _ hc]
      rfl
    · rw [List.cons_append, List.orderedInsert_of_not_le _ _ hc,
        List.orderedInsert_of_not_le _ _ hc, ih, List.cons_append]

/-- The insertion from the back puts the entry in its place among the first `p`. -/
theorem shiftInsert_eq (h : Lawful cmp) {a : α} {p : ℕ} {xs : List α} (hp : p < xs.length)
    (hs : Ascending cmp (xs.take p)) : shiftInsert (cmp a) a p xs =
      some ((xs.take p).orderedInsert (NotAfter cmp) a ++ xs.drop (p + 1)) := by
  induction p generalizing xs with
  | zero =>
    obtain ⟨x, xs, rfl⟩ := List.exists_cons_of_length_pos hp
    rfl
  | succ p ih =>
    have hp' : p < xs.length := by omega
    have htake : xs.take (p + 1) = xs.take p ++ [xs[p]] := (List.take_append_getElem hp').symm
    rw [shiftInsert, List.getElem?_eq_getElem hp', Option.bind_some]
    by_cases hpos : 0 < cmp a xs[p]
    · -- everything in front is smaller
      have hafter : ∀ b ∈ xs.take (p + 1), ¬ NotAfter cmp a b := by
        intro b hb
        rw [htake, List.mem_append, List.mem_singleton] at hb
        have hlt : cmp b a < 0 := by
          rcases hb with hb | rfl
          · refine h.trans ?_ (h.swap.mp hpos)
            rw [htake] at hs
            exact (List.pairwise_append.mp hs).2.2 b hb _ (List.mem_singleton.mpr rfl)
          · exact h.swap.mp hpos
        exact not_le.mpr (h.swap.mpr hlt)
      rw [if_pos hpos, writeEntry, if_pos hp, orderedInsert_of_after hafter,
        List.set_eq_take_append_cons_drop, if_pos hp, List.append_assoc]
      rfl
    · have hmoved : (xs.set (p + 1) xs[p]).take p = xs.take p :=
        List.take_set_of_le (Nat.le_succ p)
      have hrest : (xs.set (p + 1) xs[p]).drop (p + 1) = xs[p] :: xs.drop (p + 2) := by
        rw [List.set_eq_take_append_cons_drop, if_pos hp, List.drop_left' (by simp; omega)]
      have hs' : Ascending cmp (xs.take p) := by
        rw [htake] at hs
        exact (List.pairwise_append.mp hs).1
      rw [if_neg hpos, writeEntry, if_pos hp, Option.bind_some,
        ih (by rw [List.length_set]; omega) (by rw [hmoved]; exact hs'), hmoved, hrest, htake,
        orderedInsert_append (not_lt.mp hpos), List.append_assoc]
      rfl

/-- A new entry in its place keeps the list ascending. -/
theorem Ascending.orderedInsert (h : Lawful cmp) {xs : List α} {a : α} (hs : Ascending cmp xs)
    (ha : a ∉ xs) : Ascending cmp (xs.orderedInsert (NotAfter cmp) a) := by
  induction xs with
  | nil => exact List.pairwise_singleton _ _
  | cons b xs ih =>
    obtain ⟨hb, hs'⟩ := List.pairwise_cons.mp hs
    obtain ⟨hne, ha'⟩ : a ≠ b ∧ a ∉ xs := by simpa using ha
    by_cases hab : NotAfter cmp a b
    · have hlt := h.lt_of_ne hab hne
      rw [List.orderedInsert_cons_of_le _ xs hab]
      refine List.pairwise_cons.mpr ⟨fun c hc => ?_, hs⟩
      rcases List.mem_cons.mp hc with rfl | hc
      · exact hlt
      · exact h.trans hlt (hb c hc)
    · rw [List.orderedInsert_of_not_le _ xs hab]
      refine List.pairwise_cons.mpr ⟨fun c hc => ?_, ih hs' ha'⟩
      rcases (List.mem_orderedInsert _).mp hc with rfl | hc
      · exact h.swap.mp (not_le.mp hab)
      · exact hb c hc

end Insertion

section Tables

/-- An allocated array and the number of its used entries. -/
structure Table (α : Type*) where
  slots : List α
  count : ℕ

def Table.entries (t : Table α) : List α := t.slots.take t.count

/-- The used entries are within the array and ascending. -/
structure Table.Ordered (cmp : α → α → ℤ) (t : Table α) : Prop where
  count_le : t.count ≤ t.slots.length
  ascending : Ascending cmp t.entries

theorem Table.Ordered.length_entries {t : Table α} (h : t.Ordered cmp) :
    t.entries.length = t.count := by
  rw [Table.entries, List.length_take]
  exact min_eq_left h.count_le

/-- A new entry fits a table with a free place. -/
theorem Table.Ordered.insert (hc : Lawful cmp) {t : Table α} (h : t.Ordered cmp) {a : α}
    (hfree : t.count < t.slots.length) (ha : a ∉ t.entries) :
    ∃ slots, shiftInsert (cmp a) a t.count t.slots = some slots ∧
      slots.length = t.slots.length ∧ (⟨slots, t.count + 1⟩ : Table α).Ordered cmp ∧
      ∀ b, b ∈ (⟨slots, t.count + 1⟩ : Table α).entries ↔ b = a ∨ b ∈ t.entries := by
  set inserted := t.entries.orderedInsert (NotAfter cmp) a with hinserted
  have hlen : inserted.length = t.count + 1 := by
    rw [hinserted, List.orderedInsert_length, h.length_entries]
  have hentries : (⟨inserted ++ t.slots.drop (t.count + 1), t.count + 1⟩ : Table α).entries =
      inserted := List.take_left' hlen
  have hslots : (inserted ++ t.slots.drop (t.count + 1)).length = t.slots.length := by
    rw [List.length_append, hlen, List.length_drop]
    omega
  refine ⟨_, shiftInsert_eq hc hfree h.ascending, hslots, ⟨?_, ?_⟩, fun b => ?_⟩
  · change t.count + 1 ≤ (inserted ++ t.slots.drop (t.count + 1)).length
    omega
  · rw [← Table.entries, ← hinserted, hentries]
    exact h.ascending.orderedInsert hc ha
  · rw [← Table.entries, ← hinserted, hentries, hinserted, List.mem_orderedInsert]

end Tables

end DemoStorage.ComparedTables
