import Mathlib.Data.List.Basic

/-!
# Blocks of memory

A memory is a function of the address. A list stored at an address fills the cells from there
on and no other; lists stored one behind the other are their concatenation stored at once.
-/

namespace DemoStorage.MemoryBlocks

variable {α : Type} (mem : ℕ → α) (p : ℕ)

/-- The memory with a list stored at an address. -/
def store (l : List α) : ℕ → α := fun i => if p ≤ i then l[i - p]?.getD (mem i) else mem i

/-- The cells of a block. -/
def block (n : ℕ) : List α := (List.range' p n).map mem

@[simp] theorem store_nil : store mem p [] = mem := by
  funext i
  simp [store]

/-- Cells behind the list keep their contents. -/
theorem store_of_le {l : List α} {i : ℕ} (h : p + l.length ≤ i) : store mem p l i = mem i := by
  rw [store, List.getElem?_eq_none (by omega)]
  simp

theorem store_append (a b : List α) :
    store (store mem p a) (p + a.length) b = store mem p (a ++ b) := by
  funext i
  by_cases hi : p + a.length ≤ i
  · have hp : p ≤ i := by omega
    have hsub : i - p - a.length = i - (p + a.length) := by omega
    rw [store, if_pos hi, store_of_le mem p hi, store, if_pos hp,
      List.getElem?_append_right (by omega), hsub]
  · rw [store, if_neg hi]
    by_cases hp : p ≤ i
    · rw [store, store, if_pos hp, if_pos hp, List.getElem?_append_left (by omega)]
    · rw [store, store, if_neg hp, if_neg hp]

@[simp] theorem length_block (n : ℕ) : (block mem p n).length = n := by simp [block]

theorem block_add (m n : ℕ) : block mem p (m + n) = block mem p m ++ block mem (p + m) n := by
  rw [block, ← List.range'_append_1, List.map_append]
  rfl

theorem take_block (k n : ℕ) : (block mem p n).take k = block mem p (min k n) := by
  rcases Nat.le_total n k with h | h
  · rw [Nat.min_eq_right h]
    exact List.take_of_length_le (by rwa [length_block])
  · rw [Nat.min_eq_left h, block, ← List.map_take, List.take_range'_of_length_ge h]
    rfl

theorem drop_block (k n : ℕ) :
    (block mem p n).drop k = block mem (p + min k n) (n - min k n) := by
  have happ := List.take_append_drop k (block mem p n)
  have hadd := block_add mem p (min k n) (n - min k n)
  rw [Nat.add_sub_cancel' (Nat.min_le_right k n)] at hadd
  rw [take_block] at happ
  exact List.append_cancel_left (happ.trans hadd)

/-- A stored list is read back. -/
theorem block_store (l : List α) : block (store mem p l) p l.length = l := by
  apply List.ext_getElem
  · exact length_block _ _ _
  · intro i hi hl
    simp [block, store, List.getElem?_eq_getElem hl]

end DemoStorage.MemoryBlocks
