import DemoStorage.ByteStrings
import Mathlib.Data.List.Nodup

/-!
# Tables of slots

A table takes the first different elements it is offered, as many as it has slots. Kept as an
array, each slot holds a C string padded with NULs, so that the strings that begin anywhere in
the array are the suffixes of its elements.
-/

namespace DemoStorage.SlotTables
open ByteStrings

section Offers
variable {α : Type} [DecidableEq α] {n : ℕ} {l xs : List α} {x : α}

/-- An element offered to a table with room for `n`. -/
def offer (n : ℕ) (l : List α) (x : α) : List α := if x ∈ l ∨ n ≤ l.length then l else l ++ [x]

/-- The table behind a sequence of offers. -/
def offerAll (n : ℕ) (xs : List α) : List α := xs.foldl (offer n) []

@[simp] theorem offerAll_nil : offerAll n ([] : List α) = [] := rfl

theorem offerAll_snoc : offerAll n (xs ++ [x]) = offer n (offerAll n xs) x := by
  simp [offerAll, List.foldl_append]

theorem mem_offer_self (h : l.length < n) : x ∈ offer n l x := by
  rw [offer]
  split
  · rename_i hx
    exact hx.resolve_right (by omega)
  · simp

/-- An element is in the table if and only if it was offered while there was room. -/
theorem mem_offerAll : x ∈ offerAll n xs ↔
    ∃ ys zs, xs = ys ++ x :: zs ∧ (offerAll n ys).length < n := by
  induction xs using List.reverseRecOn with
  | nil => simp
  | append_singleton xs a ih =>
    rw [offerAll_snoc]
    constructor
    · intro hx
      by_cases hmem : x ∈ offerAll n xs
      · obtain ⟨ys, zs, rfl, hroom⟩ := ih.mp hmem
        exact ⟨ys, zs ++ [a], by simp, hroom⟩
      · rw [offer] at hx
        split at hx
        · exact absurd hx hmem
        · rename_i hnew
          obtain rfl : x = a := by simpa [hmem] using hx
          exact ⟨xs, [], rfl, by omega⟩
    · rintro ⟨ys, zs, hsplit, hroom⟩
      rcases List.eq_nil_or_concat zs with rfl | ⟨zs, z, rfl⟩
      · obtain ⟨rfl, hx⟩ := List.append_inj' hsplit rfl
        obtain rfl := List.singleton_inj.mp hx
        exact mem_offer_self hroom
      · have hxs : xs = ys ++ x :: zs := by
          rw [List.concat_eq_append, ← List.cons_append, ← List.append_assoc] at hsplit
          exact (List.append_inj' hsplit rfl).1
        have hmem := ih.mpr ⟨ys, zs, hxs, hroom⟩
        rw [offer]
        split
        · exact hmem
        · exact List.mem_append_left _ hmem

end Offers

section Slots
variable {w : ℕ} {es : List Bytes} {e q rest : Bytes}

/-- A string in a slot. -/
def slot (w : ℕ) (e : Bytes) : Bytes := e ++ List.replicate (w - e.length) 0

/-- The array of the slots. -/
def slots (w : ℕ) (es : List Bytes) : Bytes := es.flatMap (slot w)

theorem length_slot (h : e.length ≤ w) : (slot w e).length = w := by
  rw [slot, List.length_append, List.length_replicate]
  omega

theorem length_slots (hes : ∀ e ∈ es, e.length ≤ w) : (slots w es).length = w * es.length := by
  induction es with
  | nil => simp [slots]
  | cons e es ih =>
    obtain ⟨he, hes⟩ := List.forall_mem_cons.mp hes
    rw [slots, List.flatMap_cons, List.length_append, length_slot he]
    have ih' := ih hes
    rw [slots] at ih'
    rw [ih', List.length_cons]
    ring

theorem slots_snoc : slots w (es ++ [e]) = slots w es ++ slot w e := by
  simp [slots]

/-- The string from a position of a slot on. -/
theorem cstr_drop_slot (h0 : 0 ∉ e) {i : ℕ} (he : e.length < w) (hi : i < w) (rest : Bytes) :
    cstr ((slot w e ++ rest).drop i) = e.drop i := by
  obtain ⟨k, hk⟩ : ∃ k, w - e.length - (i - e.length) = k + 1 :=
    ⟨w - e.length - (i - e.length) - 1, by omega⟩
  have hdrop : (slot w e ++ rest).drop i = e.drop i ++ 0 :: (List.replicate k 0 ++ rest) := by
    rw [List.drop_append_of_le_length (by rw [length_slot he.le]; exact hi.le), slot,
      List.drop_append, List.drop_replicate, hk, List.replicate_succ, List.append_assoc]
    rfl
  have hzero : 0 ∉ e.drop i := fun h => h0 (List.mem_of_mem_drop h)
  rw [hdrop, cstr_append hzero, cstr, if_pos rfl, List.append_nil]

theorem cstr_slot (h0 : 0 ∉ e) (he : e.length < w) : cstr (slot w e) = e := by
  simpa using cstr_drop_slot h0 he (Nat.zero_lt_of_lt he) []

theorem zero_mem_slot (he : e.length < w) : 0 ∈ slot w e := by
  have hne : w - e.length ≠ 0 := by omega
  simp [slot, hne]

/-- The bytes of one slot. -/
theorem take_drop_slots (hes : ∀ e ∈ es, e.length ≤ w) {i : ℕ} (hi : i < es.length) (rest : Bytes) :
    ((slots w es ++ rest).drop (w * i)).take w = slot w es[i] := by
  induction es generalizing i with
  | nil => cases hi
  | cons e es ih =>
    obtain ⟨he, hes⟩ := List.forall_mem_cons.mp hes
    have hcons : slots w (e :: es) ++ rest = slot w e ++ (slots w es ++ rest) := by
      simp [slots]
    rw [hcons]
    cases i with
    | zero =>
      rw [Nat.mul_zero, List.drop_zero, List.take_left' (length_slot he), List.getElem_cons_zero]
    | succ i =>
      have hdrop : (slot w e ++ (slots w es ++ rest)).drop (w * (i + 1)) =
          (slots w es ++ rest).drop (w * i) := by
        rw [Nat.mul_succ, Nat.add_comm, ← List.drop_drop, List.drop_left' (length_slot he)]
      rw [hdrop, ih hes (Nat.lt_of_succ_lt_succ hi), List.getElem_cons_succ]

theorem exists_cstr_drop_slot (h0 : 0 ∉ e) (he : e.length < w) (rest : Bytes) :
    (∃ i < w, cstr ((slot w e ++ rest).drop i) = q) ↔ q <:+ e := by
  constructor
  · rintro ⟨i, hi, rfl⟩
    rw [cstr_drop_slot h0 he hi]
    exact List.drop_suffix i e
  · intro h
    have hi : e.length - q.length < w := by omega
    refine ⟨e.length - q.length, hi, ?_⟩
    rw [cstr_drop_slot h0 he hi]
    exact (List.suffix_iff_eq_drop.mp h).symm

/-- The strings that begin in the array are the suffixes of its elements. -/
theorem exists_cstr_drop_slots (hes : ∀ e ∈ es, 0 ∉ e ∧ e.length < w) (rest : Bytes) :
    (∃ i < w * es.length, cstr ((slots w es ++ rest).drop i) = q) ↔ ∃ e ∈ es, q <:+ e := by
  induction es with
  | nil => simp
  | cons e es ih =>
    obtain ⟨⟨h0, he⟩, hes⟩ := List.forall_mem_cons.mp hes
    have hcons : slots w (e :: es) ++ rest = slot w e ++ (slots w es ++ rest) := by
      simp [slots]
    have hlen : w * (e :: es).length = w + w * es.length := by
      rw [List.length_cons]
      ring
    have hsplit {P : ℕ → Prop} : (∃ i < w + w * es.length, P i) ↔
        (∃ i < w, P i) ∨ ∃ i < w * es.length, P (w + i) := by
      constructor
      · rintro ⟨i, hi, h⟩
        by_cases hw : i < w
        · exact .inl ⟨i, hw, h⟩
        · exact .inr ⟨i - w, by omega, by rwa [Nat.add_sub_cancel' (Nat.not_lt.mp hw)]⟩
      · rintro (⟨i, hi, h⟩ | ⟨i, hi, h⟩)
        · exact ⟨i, by omega, h⟩
        · exact ⟨w + i, by omega, h⟩
    have hbehind (i : ℕ) : (slot w e ++ (slots w es ++ rest)).drop (w + i) =
        (slots w es ++ rest).drop i := by
      rw [← List.drop_drop, List.drop_left' (length_slot he.le)]
    rw [hcons, hlen, hsplit, exists_cstr_drop_slot h0 he]
    simp only [hbehind]
    rw [ih hes]
    simp

end Slots

end DemoStorage.SlotTables
