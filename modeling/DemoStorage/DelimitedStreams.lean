import Mathlib.Data.List.Basic

/-!
# Streams of pieces that tell their length

A piece tells its length at its front, whatever stands behind it. A stream of such pieces is
cut into them again by reading one length after the other, and a rest that is shorter than it
tells is left over.
-/

namespace DemoStorage.DelimitedStreams

section
variable {α : Type*} {size : List α → ℕ}

/-- Cut off pieces of the length the stream tells, with a bound on their number. -/
def cut (size : List α → ℕ) : ℕ → List α → List (List α)
  | 0, _ => []
  | _ + 1, [] => []
  | fuel + 1, a :: s =>
    if size (a :: s) ≤ (a :: s).length then
      (a :: s).take (size (a :: s)) :: cut size fuel ((a :: s).drop (size (a :: s)))
    else []

/-- The pieces of a stream. -/
def pieces (size : List α → ℕ) (s : List α) : List (List α) := cut size s.length s

/-- A piece whose length can be told from any stream that starts with it. -/
structure Delimits (size : List α → ℕ) (p : List α) : Prop where
  ne : p ≠ []
  size_eq : ∀ rest, size (p ++ rest) = p.length

/-- The stream ends within a piece or behind one. -/
def Incomplete (size : List α → ℕ) (rest : List α) : Prop := rest = [] ∨ rest.length < size rest

theorem cut_incomplete {rest : List α} (h : Incomplete size rest) (fuel : ℕ) :
    cut size fuel rest = [] := by
  cases fuel with
  | zero => rfl
  | succ fuel =>
    cases rest with
    | nil => rfl
    | cons a rest =>
      have hlt := h.resolve_left (List.cons_ne_nil a rest)
      exact if_neg (Nat.not_le.mpr hlt)

theorem cut_cons {p : List α} (hp : Delimits size p) (rest : List α) (fuel : ℕ) :
    cut size (fuel + 1) (p ++ rest) = p :: cut size fuel rest := by
  obtain ⟨a, p', rfl⟩ := List.exists_cons_of_ne_nil hp.ne
  have hsize := hp.size_eq rest
  rw [List.cons_append] at hsize ⊢
  rw [cut, hsize, ← List.cons_append, List.take_left, List.drop_left, if_pos]
  simp

/-- Delimited pieces at the front of a stream are cut off one by one. -/
theorem cut_flatten {ps : List (List α)} (hps : ∀ p ∈ ps, Delimits size p) (rest : List α)
    {fuel : ℕ} (hfuel : (ps.flatten ++ rest).length ≤ fuel) :
    ∃ fuel', cut size fuel (ps.flatten ++ rest) = ps ++ cut size fuel' rest := by
  induction ps generalizing fuel with
  | nil => exact ⟨fuel, rfl⟩
  | cons p ps ih =>
    have hp := hps p List.mem_cons_self
    have hpos := List.length_pos_of_ne_nil hp.ne
    have hstream : (p :: ps).flatten ++ rest = p ++ (ps.flatten ++ rest) := by
      rw [List.flatten_cons, List.append_assoc]
    rw [hstream, List.length_append] at hfuel
    obtain ⟨n, rfl⟩ : ∃ n, fuel = n + 1 := ⟨fuel - 1, by omega⟩
    obtain ⟨fuel', hcut⟩ := ih (fun q hq => hps q (List.mem_cons_of_mem _ hq))
      (show (ps.flatten ++ rest).length ≤ n by omega)
    exact ⟨fuel', by rw [hstream, cut_cons hp, hcut, List.cons_append]⟩

/-- Whatever is behind them, the delimited pieces at the front of a stream are its first. -/
theorem flatten_pieces {ps : List (List α)} (hps : ∀ p ∈ ps, Delimits size p) {s : List α}
    (h : ps.flatten <+: s) : ps <+: pieces size s := by
  obtain ⟨rest, rfl⟩ := h
  obtain ⟨fuel, hcut⟩ := cut_flatten hps rest (Nat.le_refl _)
  rw [pieces, hcut]
  exact List.prefix_append ps _

/-- A stream of delimited pieces is cut into them, whatever incomplete rest is behind them. -/
theorem pieces_flatten {ps : List (List α)} (hps : ∀ p ∈ ps, Delimits size p) {rest : List α}
    (hrest : Incomplete size rest) : pieces size (ps.flatten ++ rest) = ps := by
  obtain ⟨fuel, hcut⟩ := cut_flatten hps rest (Nat.le_refl _)
  rw [pieces, hcut, cut_incomplete hrest, List.append_nil]

end
end DemoStorage.DelimitedStreams
