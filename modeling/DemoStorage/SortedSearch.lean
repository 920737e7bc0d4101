import Mathlib.Data.List.Basic

/-!
# Binary search in a sorted list

Halve a range of positions until the key at its middle is the one looked for. In a list
that is strictly sorted by its keys the search finds every element. Where keys repeat it finds
one position of the run of equal keys, and scans from there outwards meet the rest of the run.
-/

namespace DemoStorage.SortedSearch

section
variable {α κ : Type*} [LT κ] [DecidableLT κ] (key : α → κ) (xs : List α) (k : κ)

/-- Search the positions from `lo` on and below `hi`, with a bound on the halvings. -/
def searchFrom : ℕ → ℕ → ℕ → Option α
  | 0, _, _ => none
  | fuel + 1, lo, hi =>
    if lo < hi then
      match xs[(lo + hi) / 2]? with
      | none => none
      | some a =>
        if k < key a then searchFrom fuel lo ((lo + hi) / 2)
        else if key a < k then searchFrom fuel ((lo + hi) / 2 + 1) hi
        else some a
    else none

def search : Option α := searchFrom key xs k xs.length 0 xs.length

/-- The position at which the search ends. -/
def searchIndexFrom : ℕ → ℕ → ℕ → Option ℕ
  | 0, _, _ => none
  | fuel + 1, lo, hi =>
    if lo < hi then
      match xs[(lo + hi) / 2]? with
      | none => none
      | some a =>
        if k < key a then searchIndexFrom fuel lo ((lo + hi) / 2)
        else if key a < k then searchIndexFrom fuel ((lo + hi) / 2 + 1) hi
        else some ((lo + hi) / 2)
    else none

def searchIndex : Option ℕ := searchIndexFrom key xs k xs.length 0 xs.length

theorem searchFrom_eq_index (fuel lo hi : ℕ) : searchFrom key xs k fuel lo hi =
    (searchIndexFrom key xs k fuel lo hi).bind fun i => xs[i]? := by
  induction fuel generalizing lo hi with
  | zero => rfl
  | succ fuel ih =>
    rw [searchFrom, searchIndexFrom]
    cases ha : xs[(lo + hi) / 2]? with
    | none => split <;> rfl
    | some a =>
      dsimp only
      split_ifs
      · exact ih _ _
      · exact ih _ _
      · exact ha.symm
      · rfl

/-- Where the search ends the key is neither above nor below. -/
theorem searchIndexFrom_found {fuel lo hi i : ℕ}
    (h : searchIndexFrom key xs k fuel lo hi = some i) :
    ∃ a, xs[i]? = some a ∧ ¬ k < key a ∧ ¬ key a < k := by
  induction fuel generalizing lo hi with
  | zero => cases h
  | succ fuel ih =>
    rw [searchIndexFrom] at h
    split_ifs at h
    cases ha : xs[(lo + hi) / 2]? with
    | none =>
      rw [ha] at h
      cases h
    | some a =>
      rw [ha] at h
      dsimp only at h
      split_ifs at h with h1 h2
      · exact ih h
      · exact ih h
      · obtain rfl := Option.some.inj h
        exact ⟨a, ha, h1, h2⟩

variable [Std.Asymm fun a b : κ => a < b] {key} {xs}

/-- In a sorted list a key that occurs in the range is found there. -/
theorem searchIndexFrom_isSome (hs : xs.Pairwise fun a b => ¬ key b < key a) {a : α}
    {fuel lo hi i : ℕ} (hfuel : hi - lo ≤ fuel) (hlo : lo ≤ i) (hhi : i < hi)
    (hlen : hi ≤ xs.length) (hi' : xs[i]? = some a) :
    (searchIndexFrom key xs (key a) fuel lo hi).isSome := by
  induction fuel generalizing lo hi with
  | zero => omega
  | succ fuel ih =>
    have hlt : lo < hi := by omega
    have hmid : (lo + hi) / 2 < xs.length := by omega
    obtain ⟨hi0, rfl⟩ := List.getElem?_eq_some_iff.mp hi'
    have hirrefl (x : κ) : ¬ x < x := fun h => Std.Asymm.asymm _ _ h h
    have hsorted {m n : ℕ} (hm : m < xs.length) (hn : n < xs.length) (h : m ≤ n) :
        ¬ key xs[n] < key xs[m] := by
      rcases Nat.lt_or_eq_of_le h with h | rfl
      · exact List.pairwise_iff_getElem.mp hs _ _ hm hn h
      · exact hirrefl _
    rw [searchIndexFrom, if_pos hlt, List.getElem?_eq_getElem hmid]
    dsimp only
    split_ifs with h1 h2
    · have hbelow : i < (lo + hi) / 2 := by
        by_contra hle
        exact hsorted hmid hi0 (Nat.not_lt.mp hle) h1
      exact ih (by omega) hlo hbelow (by omega)
    · have habove : (lo + hi) / 2 < i := by
        by_contra hle
        exact hsorted hi0 hmid (Nat.not_lt.mp hle) h2
      exact ih (by omega) (by omega) hhi hlen
    · rfl

/-- The search finds every key that occurs in a sorted list. -/
theorem searchIndex_isSome (hs : xs.Pairwise fun a b => ¬ key b < key a) {a : α} (ha : a ∈ xs) :
    (searchIndex key xs (key a)).isSome := by
  obtain ⟨i, hi, rfl⟩ := List.mem_iff_getElem.mp ha
  exact searchIndexFrom_isSome hs (Nat.le_refl _) (Nat.zero_le i) hi (Nat.le_refl _)
    (List.getElem?_eq_getElem hi)

/-- An element in the range is found. -/
theorem searchFrom_eq_some (hs : xs.Pairwise fun a b => key a < key b) {a : α} {fuel lo hi i : ℕ}
    (hfuel : hi - lo ≤ fuel) (hlo : lo ≤ i) (hhi : i < hi) (hlen : hi ≤ xs.length)
    (hi' : xs[i]? = some a) : searchFrom key xs (key a) fuel lo hi = some a := by
  have hweak : xs.Pairwise fun a b => ¬ key b < key a :=
    hs.imp fun hlt hgt => Std.Asymm.asymm _ _ hlt hgt
  obtain ⟨j, hj⟩ :=
    Option.isSome_iff_exists.mp (searchIndexFrom_isSome hweak hfuel hlo hhi hlen hi')
  obtain ⟨b, hb, habove, hbelow⟩ := searchIndexFrom_found _ _ _ hj
  obtain ⟨hi0, rfl⟩ := List.getElem?_eq_some_iff.mp hi'
  obtain ⟨hj0, rfl⟩ := List.getElem?_eq_some_iff.mp hb
  -- equal keys are at one position only
  have hji : j = i := by
    rcases Nat.lt_trichotomy j i with h | h | h
    · exact absurd (List.pairwise_iff_getElem.mp hs _ _ hj0 hi0 h) hbelow
    · exact h
    · exact absurd (List.pairwise_iff_getElem.mp hs _ _ hi0 hj0 h) habove
  rw [searchFrom_eq_index, hj, hji]
  exact hi'

/-- In a strictly sorted list every element is found by its key. -/
theorem search_eq_some (hs : xs.Pairwise fun a b => key a < key b) {a : α} (ha : a ∈ xs) :
    search key xs (key a) = some a := by
  obtain ⟨i, hi, rfl⟩ := List.mem_iff_getElem.mp ha
  exact searchFrom_eq_some hs (Nat.le_refl _) (Nat.zero_le i) hi (Nat.le_refl _)
    (List.getElem?_eq_getElem hi)

end

section Runs
variable {α : Type*} {p : α → Bool} {l : List α}

/-- A scan that stops at the first failure misses nothing if no match lies behind a failure. -/
theorem takeWhile_eq_filter (h : l.Pairwise fun a b => p b = true → p a = true) :
    l.takeWhile p = l.filter p := by
  induction l with
  | nil => rfl
  | cons a l ih =>
    obtain ⟨ha, hl⟩ := List.pairwise_cons.mp h
    by_cases hp : p a = true
    · rw [List.takeWhile_cons_of_pos hp, List.filter_cons_of_pos hp, ih hl]
    · rw [List.takeWhile_cons_of_neg hp]
      symm
      rw [List.filter_eq_nil_iff]
      intro b hb hpb
      rcases List.mem_cons.mp hb with rfl | hb
      · exact hp hpb
      · exact hp (ha b hb hpb)

end Runs
end DemoStorage.SortedSearch
