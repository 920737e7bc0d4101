import Mathlib.Data.List.Basic

/-!
# Lists cut into lines

A list is cut every `n` elements, and the cuts are joined again with a separator between them.
What still fits the last line can be appended to it.
-/

namespace DemoStorage.CutLists

variable {α : Type}

/-- Cut a list every `n` elements. -/
def cutEvery (n : ℕ) (s : List α) : List (List α) :=
  if _ : s = [] ∨ n = 0 then [] else s.take n :: cutEvery n (s.drop n)
termination_by s.length
decreasing_by
  rename_i h
  obtain ⟨hs, hn⟩ := not_or.mp h
  have hpos := List.length_pos_iff.mpr hs
  rw [List.length_drop]
  omega

theorem cutEvery_nil (n : ℕ) : cutEvery n ([] : List α) = [] := by
  rw [cutEvery, dif_pos (.inl rfl)]

theorem cutEvery_short {n : ℕ} {s : List α} (hne : s ≠ []) (hs : s.length ≤ n) :
    cutEvery n s = [s] := by
  have hn : n ≠ 0 := by
    have hpos := List.length_pos_iff.mpr hne
    omega
  rw [cutEvery, dif_neg (not_or.mpr ⟨hne, hn⟩), List.take_of_length_le hs,
    List.drop_eq_nil_of_le hs, cutEvery_nil]

theorem cutEvery_long {n : ℕ} {s : List α} (hn : 0 < n) (hs : n < s.length) :
    cutEvery n s = s.take n :: cutEvery n (s.drop n) := by
  have hne : s ≠ [] := by
    rintro rfl
    cases hs
  rw [cutEvery, dif_neg (not_or.mpr ⟨hne, (Nat.pos_iff_ne_zero.mp hn)⟩)]

/-- The first cut of a list that goes on behind it. -/
theorem cutEvery_append {n : ℕ} (hn : 0 < n) {l s : List α} (hl : l.length = n) :
    cutEvery n (l ++ s) = l :: cutEvery n s := by
  have hne : l ++ s ≠ [] := by
    rintro h
    have hnil := (List.append_eq_nil_iff.mp h).1
    simp [hnil] at hl
    omega
  rw [cutEvery, dif_neg (not_or.mpr ⟨hne, (Nat.pos_iff_ne_zero.mp hn)⟩), List.take_left' hl,
    List.drop_left' hl]

theorem cutEvery_ne_nil {n : ℕ} (hn : 0 < n) {s : List α} (hs : s ≠ []) : cutEvery n s ≠ [] := by
  rw [cutEvery, dif_neg (not_or.mpr ⟨hs, (Nat.pos_iff_ne_zero.mp hn)⟩)]
  exact List.cons_ne_nil _ _

theorem cutEvery_flatten {n : ℕ} (hn : 0 < n) (s : List α) : (cutEvery n s).flatten = s := by
  induction s using cutEvery.induct n with
  | case1 s h =>
    rw [cutEvery, dif_pos h]
    exact (h.resolve_right (Nat.pos_iff_ne_zero.mp hn)).symm
  | case2 s h ih => rw [cutEvery, dif_neg h, List.flatten_cons, ih, List.take_append_drop]

section Wrapping
variable {n : ℕ} {sep s t : List α}

/-- The cuts of a list with a separator between them. -/
def wrapLines (n : ℕ) (sep s : List α) : List α := sep.intercalate (cutEvery n s)

@[simp] theorem wrapLines_nil : wrapLines n sep [] = [] := by
  rw [wrapLines, cutEvery_nil]
  rfl

theorem wrapLines_short (hs : s.length ≤ n) : wrapLines n sep s = s := by
  by_cases hne : s = []
  · rw [hne, wrapLines_nil]
  · rw [wrapLines, cutEvery_short hne hs, List.intercalate_singleton]

theorem wrapLines_append (hn : 0 < n) {l : List α} (hl : l.length = n) (hs : s ≠ []) :
    wrapLines n sep (l ++ s) = l ++ sep ++ wrapLines n sep s := by
  rw [wrapLines, cutEvery_append hn hl, List.intercalate_cons_of_ne_nil (cutEvery_ne_nil hn hs),
    wrapLines]

/-- What fits the last line goes behind it. -/
theorem wrapLines_append_of_fits (hs : s.length % n ≠ 0) (hfit : s.length % n + t.length ≤ n) :
    wrapLines n sep (s ++ t) = wrapLines n sep s ++ t := by
  induction hk : s.length using Nat.strongRecOn generalizing s with
  | _ k ih =>
    subst hk
    rcases Nat.lt_or_ge n s.length with hlen | hlen
    · have hn : 0 < n := by omega
      have htake : (s.take n).length = n := List.length_take_of_le (Nat.le_of_lt hlen)
      have hdrop : (s.drop n).length = s.length - n := List.length_drop
      have hmod : (s.drop n).length % n = s.length % n := by
        rw [hdrop, Nat.mod_eq_sub_mod (Nat.le_of_lt hlen)]
      have hne : s.drop n ≠ [] := by simpa using hlen
      have hrest := ih _ (by omega) (s := s.drop n) (by omega) (by omega) rfl
      conv_lhs => rw [← List.take_append_drop n s, List.append_assoc]
      rw [wrapLines_append hn htake (List.append_ne_nil_of_left_ne_nil hne t), hrest]
      conv_rhs => rw [← List.take_append_drop n s, wrapLines_append hn htake hne]
      simp
    · have hlt : s.length < n := by
        rcases Nat.lt_or_eq_of_le hlen with h | h
        · exact h
        · rw [h, Nat.mod_self] at hs
          exact absurd rfl hs
      rw [Nat.mod_eq_of_lt hlt] at hfit
      rw [wrapLines_short (by simpa using hfit), wrapLines_short hlen]

theorem wrapLines_nil_sep (hn : 0 < n) : wrapLines n [] s = s := by
  have hjoin (ls : List (List α)) : ([] : List α).intercalate ls = ls.flatten := by
    induction ls with
    | nil => rfl
    | cons l ls ih =>
      by_cases hne : ls = []
      · simp [hne, List.intercalate]
      · rw [List.intercalate_cons_of_ne_nil hne, ih]
        simp
  rw [wrapLines, hjoin, cutEvery_flatten hn]

end Wrapping
end DemoStorage.CutLists
