import Mathlib.Data.List.Basic

/-!
# Pools of threads

A pool is the list of the program points of its threads in the order of their creation.
A thread is never removed: a move replaces its program point, a creation appends one. What
is counted over a pool changes by the thread that moved.
-/

namespace DemoStorage.ThreadPools

section
variable {α : Type*} {p : α → Bool} {ts : List α} {i : ℕ} {a b : α}

/-- A move from `a` to `b` trades the weight of `a` for the weight of `b`. -/
theorem countP_move (h : ts[i]? = some a) (p : α → Bool) (b : α) :
    (ts.set i b).countP p + (if p a = true then 1 else 0) =
      ts.countP p + (if p b = true then 1 else 0) := by
  obtain ⟨hi, ha⟩ := List.getElem?_eq_some_iff.mp h
  rw [List.countP_set hi, ha]
  by_cases hp : p a = true
  · have hpos : 0 < ts.countP p := List.countP_pos_iff.mpr ⟨a, ha ▸ List.getElem_mem hi, hp⟩
    simp only [hp, if_true]
    omega
  · simp only [hp]
    simp

/-- A move between two points of one weight changes no count. -/
theorem countP_move_same (h : ts[i]? = some a) (hp : p a = p b) :
    (ts.set i b).countP p = ts.countP p := by
  have hm := countP_move h p b
  rw [hp] at hm
  omega

theorem countP_pos_of_get (h : ts[i]? = some a) (hp : p a = true) : 0 < ts.countP p := by
  obtain ⟨hi, ha⟩ := List.getElem?_eq_some_iff.mp h
  exact List.countP_pos_iff.mpr ⟨a, ha ▸ List.getElem_mem hi, hp⟩

theorem not_of_countP_eq_zero (h : ts.countP p = 0) (hm : a ∈ ts) : p a = false := by
  have := List.countP_eq_zero.mp h a hm
  simpa using this

/-- The program point of a thread behind a move. -/
theorem get_move (h : ts[i]? = some a) (j : ℕ) :
    (ts.set i b)[j]? = if j = i then some b else ts[j]? := by
  obtain ⟨hi, -⟩ := List.getElem?_eq_some_iff.mp h
  by_cases hj : j = i
  · rw [hj, List.getElem?_set_self hi]
    simp
  · rw [List.getElem?_set_ne (Ne.symm hj)]
    simp [hj]

/-- The program point of a thread behind a creation. -/
theorem get_create (ts : List α) (b : α) (j : ℕ) :
    (ts ++ [b])[j]? = if j = ts.length then some b else ts[j]? := by
  by_cases hj : j = ts.length
  · simp [hj]
  · rcases Nat.lt_or_gt_of_ne hj with hlt | hgt
    · rw [List.getElem?_append_left hlt, if_neg hj]
    · have h1 : (ts ++ [b])[j]? = none := by
        apply List.getElem?_eq_none
        simp
        omega
      have h2 : ts[j]? = none := List.getElem?_eq_none (by omega)
      rw [h1, if_neg hj, h2]

/-- The weights of all threads together. -/
def total (f : α → ℕ) (ts : List α) : ℕ := ts.foldr (fun t n => f t + n) 0

theorem total_move (h : ts[i]? = some a) (f : α → ℕ) (b : α) :
    total f (ts.set i b) + f a = total f ts + f b := by
  induction ts generalizing i with
  | nil => cases h
  | cons t ts ih =>
    cases i with
    | zero =>
      obtain rfl : t = a := Option.some.inj h
      simp only [total, List.set_cons_zero, List.foldr_cons]
      omega
    | succ i =>
      have hrest := ih (i := i) h
      simp only [total, List.set_cons_succ, List.foldr_cons] at hrest ⊢
      omega

theorem total_create (f : α → ℕ) (ts : List α) (b : α) :
    total f (ts ++ [b]) = total f ts + f b := by
  induction ts with
  | nil => exact Nat.add_comm _ _
  | cons t ts ih =>
    simp only [total, List.cons_append, List.foldr_cons] at ih ⊢
    omega

end
end DemoStorage.ThreadPools
