import Mathlib.Data.List.Basic

/-!
# Lists joined by a separator

Pieces written one after the other, each with a separator behind it, are the joined pieces
and one separator more. Their lengths add up, so that pieces which are dropped or cut show
in the length of the whole.
-/

namespace DemoStorage.SeparatedLists

variable {α : Type} {x : α}

theorem flatMap_snoc (ls : List (List α)) (h : ls ≠ []) :
    ls.flatMap (· ++ [x]) = [x].intercalate ls ++ [x] := by
  induction ls with
  | nil => exact absurd rfl h
  | cons l ls ih =>
    cases ls with
    | nil => simp [List.intercalate]
    | cons l' ls =>
      rw [List.flatMap_cons, ih (List.cons_ne_nil _ _)]
      simp [List.intercalate, List.intersperse]

/-- The length of pieces with a separator behind each. -/
def weight : List (List α) → ℕ
  | [] => 0
  | l :: ls => l.length + 1 + weight ls

@[simp] theorem weight_nil : weight ([] : List (List α)) = 0 := rfl

@[simp] theorem weight_cons (l : List α) (ls : List (List α)) :
    weight (l :: ls) = l.length + 1 + weight ls := rfl

theorem weight_perm {ls ls' : List (List α)} (h : ls.Perm ls') : weight ls = weight ls' := by
  induction h with
  | nil => rfl
  | cons l h ih => rw [weight_cons, weight_cons, ih]
  | swap l l' ls =>
    simp only [weight_cons]
    omega
  | trans h h' ih ih' => exact ih.trans ih'

theorem length_flatMap_snoc (ls : List (List α)) : (ls.flatMap (· ++ [x])).length = weight ls := by
  induction ls with
  | nil => rfl
  | cons l ls ih =>
    rw [List.flatMap_cons, List.length_append, ih, weight_cons, List.length_append]
    rfl

theorem length_intercalate {ls : List (List α)} (h : ls ≠ []) :
    ([x].intercalate ls).length + 1 = weight ls := by
  rw [← length_flatMap_snoc (x := x), flatMap_snoc ls h, List.length_append]
  rfl

/-- Pieces that are dropped or do not grow weigh no more. -/
theorem weight_filterMap_le {f : List α → Option (List α)}
    (hf : ∀ l s, f l = some s → s.length ≤ l.length) (ls : List (List α)) :
    weight (ls.filterMap f) ≤ weight ls := by
  induction ls with
  | nil => simp
  | cons l ls ih =>
    cases hl : f l with
    | none =>
      rw [List.filterMap_cons_none hl, weight_cons]
      omega
    | some s =>
      have hle := hf l s hl
      rw [List.filterMap_cons_some hl, weight_cons, weight_cons]
      omega

/-- They weigh the same only if each is kept at its length. -/
theorem weight_filterMap_eq {f : List α → Option (List α)}
    (hf : ∀ l s, f l = some s → s.length ≤ l.length) (ls : List (List α)) :
    weight (ls.filterMap f) = weight ls ↔ ∀ l ∈ ls, ∃ s, f l = some s ∧ s.length = l.length := by
  induction ls with
  | nil => simp
  | cons l ls ih =>
    have hrest := weight_filterMap_le hf ls
    cases hl : f l with
    | none =>
      rw [List.filterMap_cons_none hl, weight_cons, List.forall_mem_cons]
      constructor
      · intro h
        omega
      · rintro ⟨⟨s, hs, -⟩, -⟩
        rw [hl] at hs
        cases hs
    | some s =>
      have hle := hf l s hl
      rw [List.filterMap_cons_some hl, weight_cons, weight_cons, List.forall_mem_cons, ← ih]
      constructor
      · intro h
        exact ⟨⟨s, hl, by omega⟩, by omega⟩
      · rintro ⟨⟨s', hs', hlen⟩, h⟩
        obtain rfl : s = s' := Option.some.inj (hl.symm.trans hs')
        omega

variable [DecidableEq α]

theorem notMem_of_mem_splitOn {xs l : List α} (h : l ∈ xs.splitOn x) : x ∉ l := by
  induction xs generalizing l with
  | nil =>
    obtain rfl : l = [] := by simpa [List.splitOn_nil] using h
    simp
  | cons a xs ih =>
    rw [List.splitOn_cons_eq_if_modifyHead] at h
    split at h
    · rcases List.mem_cons.mp h with rfl | h
      · simp
      · exact ih h
    · rename_i ha
      obtain ⟨r, rs, hr⟩ := List.exists_cons_of_ne_nil (List.splitOn_ne_nil x xs)
      rw [hr, List.modifyHead_cons] at h
      rcases List.mem_cons.mp h with rfl | h
      · have hr' := ih (hr ▸ List.mem_cons_self)
        have hax : x ≠ a := fun he => ha (by simp [he])
        simp [hr', hax]
      · exact ih (hr ▸ List.mem_cons_of_mem _ h)

theorem mem_of_mem_splitOn {xs l : List α} (h : l ∈ xs.splitOn x) {b : α} (hb : b ∈ l) :
    b ∈ xs := by
  induction xs generalizing l with
  | nil =>
    obtain rfl : l = [] := by simpa [List.splitOn_nil] using h
    exact hb
  | cons a xs ih =>
    rw [List.splitOn_cons_eq_if_modifyHead] at h
    split at h
    · rcases List.mem_cons.mp h with rfl | h
      · cases hb
      · exact List.mem_cons_of_mem a (ih h hb)
    · obtain ⟨r, rs, hr⟩ := List.exists_cons_of_ne_nil (List.splitOn_ne_nil x xs)
      rw [hr, List.modifyHead_cons] at h
      rcases List.mem_cons.mp h with rfl | h
      · rcases List.mem_cons.mp hb with rfl | hb
        · exact List.mem_cons_self
        · exact List.mem_cons_of_mem a (ih (hr ▸ List.mem_cons_self) hb)
      · exact List.mem_cons_of_mem a (ih (hr ▸ List.mem_cons_of_mem _ h) hb)

/-- A split text weighs one more than it is long. -/
theorem weight_splitOn (x : α) (xs : List α) : weight (xs.splitOn x) = xs.length + 1 := by
  rw [← length_intercalate (x := x) (List.splitOn_ne_nil x xs), List.intercalate_splitOn]

end DemoStorage.SeparatedLists
