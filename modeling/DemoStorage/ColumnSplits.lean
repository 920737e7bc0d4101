import DemoStorage.MetadataPacking

/-!
# Columns cut in place

`splitEx` walks a pointer through the string, stores it in the array of columns and puts a NUL
over each separator behind it, until the columns or the separators run out. `getOccurCount`
walks through the same string without cutting. An array as long as the count of separators
and one more is therefore filled exactly.
-/

namespace DemoStorage.ColumnSplits
open ByteStrings SeparatedLists MetadataRecords MetadataPacking

/-- The memory behind `src` and behind `pCols`, whose pointers are indices into `src`, and the
count of the columns stored. -/
structure SplitState where
  src : Bytes
  pCols : ℕ → ℕ
  count : ℕ

namespace SplitState

/-- `*pCurrent = p; pCurrent++; count++` -/
def put (st : SplitState) (p : ℕ) : SplitState :=
  { st with pCols := Function.update st.pCols st.count p, count := st.count + 1 }

/-- `*p = '\0'` -/
def cut (st : SplitState) (p : ℕ) : SplitState := { st with src := st.src.set p 0 }

/-- The string behind a column pointer. -/
def column (st : SplitState) (i : ℕ) : Bytes := cstr (st.src.drop (st.pCols i))

/-- The strings behind the stored pointers. -/
def columns (st : SplitState) : List Bytes := (List.range st.count).map st.column

end SplitState

/-- `strchr` from a pointer into the string. -/
def strchrFrom (c : Byte) (src : Bytes) (p : ℕ) : Option ℕ :=
  (strchr c (src.drop p)).map fun f => p + f.1.length

/-- The loop of `splitEx`, with room for `left` columns behind the one that starts at `p`. -/
def splitLoop (seperator : Byte) : ℕ → ℕ → SplitState → SplitState
  | 0, p, st => st.put p
  | left + 1, p, st => match strchrFrom seperator st.src p with
    | none => st.put p
    | some q => splitLoop seperator left (q + 1) ((st.put p).cut q)

/-- `splitEx` on the pointers themselves. -/
def splitPointers (src : Bytes) (seperator : Byte) (pCols : ℕ → ℕ) (nMaxCols : ℤ) : SplitState :=
  if nMaxCols ≤ 0 then ⟨src, pCols, 0⟩
  else splitLoop seperator (nMaxCols.toNat - 1) 0 ⟨src, pCols, 0⟩

section Strings
variable {c : Byte} {s : Bytes}

/-- One round of the counting loop. -/
theorem getOccurCount_strchr (s : Bytes) : getOccurCount c s =
    match strchr c s with
    | none => 0
    | some f => getOccurCount c f.2 + 1 := by
  induction s with
  | nil => rfl
  | cons x s ih =>
    rw [getOccurCount, strchr]
    split_ifs with h0 hx
    · rfl
    · rfl
    · rw [ih]
      cases strchr c s <;> rfl

theorem getOccurCount_le (c : Byte) (s : Bytes) : getOccurCount c s ≤ (cstr s).length := by
  induction s with
  | nil => simp [getOccurCount]
  | cons x s ih =>
    rw [getOccurCount, cstr]
    split_ifs <;> simp only [List.length_nil, List.length_cons] <;> omega

theorem length_splitCols_columns (k : ℕ) :
    (splitCols c k s).1.length = min (k + 1) (getOccurCount c s + 1) := by
  induction k generalizing s with
  | zero => simp [splitCols]
  | succ k ih =>
    rw [splitCols, getOccurCount_strchr]
    cases strchr c s with
    | none => simp
    | some f =>
      change _ = min (k + 1 + 1) (getOccurCount c f.2 + 1 + 1)
      rw [List.length_cons, ih]
      omega

theorem splitCols_ne_nil (k : ℕ) : (splitCols c k s).1 ≠ [] := by
  cases k with
  | zero => simp [splitCols]
  | succ k =>
    rw [splitCols]
    cases strchr c s <;> simp

theorem intercalate_splitCols (hne : c ≠ 0) (k : ℕ) :
    [c].intercalate (splitCols c k s).1 = cstr s := by
  induction k generalizing s with
  | zero => simp [splitCols]
  | succ k ih =>
    rw [splitCols]
    cases hs : strchr c s with
    | none => simp
    | some f =>
      obtain ⟨hrow, h0, -⟩ := strchr_eq_some hs
      dsimp only
      rw [List.intercalate_cons_of_ne_nil (splitCols_ne_nil k), ih, hrow,
        cstr_append_cons h0 hne]
      simp

end Strings

section Pointers
variable {c : Byte} {left p : ℕ} {st : SplitState}

/-- The loop leaves the stored pointers alone. -/
theorem splitLoop_pCols {i : ℕ} (h : i < st.count) :
    (splitLoop c left p st).pCols i = st.pCols i := by
  have hput : (st.put p).pCols i = st.pCols i := Function.update_of_ne h.ne _ _
  induction left generalizing p st with
  | zero => exact hput
  | succ left ih =>
    rw [splitLoop]
    cases hq : strchrFrom c st.src p with
    | none => exact hput
    | some q =>
      have h' : i < ((st.put p).cut q).count := Nat.lt_succ_of_lt h
      exact (ih h' (Function.update_of_ne h'.ne _ _)).trans hput

/-- What a run of `splitEx` from a state has done: the columns are those of splitting the string
behind its pointer, and no pointer behind them is written. -/
structure Splits (before : Bytes) (split : List Bytes × Bytes) (st r : SplitState) : Prop where
  src : r.src = before ++ split.2
  count : r.count = st.count + split.1.length
  columns : (List.range' st.count split.1.length).map r.column = split.1
  rest : ∀ i, r.count ≤ i → r.pCols i = st.pCols i

variable {before s : Bytes}

theorem put_splits (hsrc : st.src = before ++ s) (hp : before.length = p) :
    Splits before ([cstr s], s) st (st.put p) where
  src := hsrc
  count := rfl
  columns := by simp [SplitState.column, SplitState.put, hsrc, ← hp]
  rest i hi := by
    have hne : i ≠ st.count := (Nat.lt_of_succ_le hi).ne'
    exact Function.update_of_ne hne _ _

/-- A cut puts the terminator of its column over the separator. -/
theorem cut_src {row rest : Bytes} (hsrc : st.src = before ++ (row ++ c :: rest))
    (hp : before.length = p) :
    ((st.put p).cut (p + row.length)).src = (before ++ row ++ [0]) ++ rest := by
  change st.src.set _ _ = _
  rw [hsrc, ← List.append_assoc, ← hp, ← List.length_append, List.set_append_right _ _ le_rfl]
  simp

theorem splitLoop_splits (hsrc : st.src = before ++ s) (hp : before.length = p) :
    Splits before (splitCols c left s) st (splitLoop c left p st) := by
  induction left generalizing p st before s with
  | zero => exact put_splits hsrc hp
  | succ left ih =>
    have hfrom : strchrFrom c st.src p = (strchr c s).map fun f => p + f.1.length := by
      rw [strchrFrom, hsrc, ← hp, List.drop_left]
    rw [splitLoop, splitCols, hfrom]
    cases hs : strchr c s with
    | none => exact put_splits hsrc hp
    | some f =>
      obtain ⟨hrow, h0, -⟩ := strchr_eq_some hs
      have hcut := cut_src (hrow ▸ hsrc) hp
      have hlen : (before ++ f.1 ++ [0]).length = p + f.1.length + 1 := by
        simp [hp, Nat.add_assoc]
      have hrun := ih hcut hlen
      have hhead : (splitLoop c left (p + f.1.length + 1)
          ((st.put p).cut (p + f.1.length))).column st.count = f.1 := by
        rw [SplitState.column, splitLoop_pCols (Nat.lt_succ_self _), hrun.src]
        change cstr (List.drop (Function.update st.pCols st.count p st.count) _) = _
        rw [Function.update_self, List.append_assoc, List.append_assoc, ← hp, List.drop_left,
          cstr_append h0]
        simp [cstr]
      constructor
      · rw [Option.map_some, hrun.src]
        simp
      · refine hrun.count.trans ?_
        change st.count + 1 + _ = st.count + (_ + 1)
        omega
      · exact congrArg₂ List.cons hhead hrun.columns
      · intro i hi
        have hne : i ≠ st.count := by
          have hcount : _ = st.count + 1 + _ := hrun.count
          dsimp only [Option.map_some] at hi
          omega
        exact (hrun.rest i hi).trans (Function.update_of_ne hne _ _)

end Pointers

section Columns
variable {src : Bytes} {seperator : Byte} {pCols : ℕ → ℕ} {nMaxCols : ℤ}

/-- The pointers show the columns of the split, and the cuts are its cuts. -/
theorem splitPointers_splits : Splits [] (splitEx src seperator nMaxCols) ⟨src, pCols, 0⟩
    (splitPointers src seperator pCols nMaxCols) := by
  rw [splitPointers, splitEx]
  split
  · exact ⟨rfl, rfl, rfl, fun _ _ => rfl⟩
  · exact splitLoop_splits rfl rfl

theorem columns_splitPointers :
    (splitPointers src seperator pCols nMaxCols).columns = (splitEx src seperator nMaxCols).1 := by
  have h : Splits [] (splitEx src seperator nMaxCols) ⟨src, pCols, 0⟩ _ := splitPointers_splits
  have hcount := h.count
  rw [Nat.zero_add] at hcount
  rw [SplitState.columns, hcount, List.range_eq_range']
  exact h.columns

/-- The counting loop does not overflow its `int` on a string whose length fits one. -/
theorem getOccurCount_fits (h : ((cstr src).length : ℤ) < INT_MAX) :
    (getOccurCount seperator src : ℤ) + 1 ≤ INT_MAX := by
  have hle := getOccurCount_le seperator src
  omega

/-- Counting and cutting agree on `src`: the split finds one column more than there are
separators, as far as the array goes, writes no pointer behind them, and the columns joined are
the string. An array of as many columns as were counted is filled with columns that hold no
separator. -/
structure CutAsCounted (src : Bytes) (seperator : Byte) (pCols : ℕ → ℕ) (nMaxCols : ℤ)
    (r : SplitState) : Prop where
  count : (r.count : ℤ) = min nMaxCols (getOccurCount seperator src + 1)
  rest : ∀ i, r.count ≤ i → r.pCols i = pCols i
  join : [seperator].intercalate r.columns = cstr src
  filled : nMaxCols = getOccurCount seperator src + 1 →
    (r.count : ℤ) = nMaxCols ∧ ∀ column ∈ r.columns, seperator ∉ column

theorem splitPointers_columns (hne : seperator ≠ 0) (hn : 1 ≤ nMaxCols) :
    CutAsCounted src seperator pCols nMaxCols
      (splitPointers src seperator pCols nMaxCols) := by
  have hr : Splits [] (splitEx src seperator nMaxCols) ⟨src, pCols, 0⟩ _ := splitPointers_splits
  have hsplit : splitEx src seperator nMaxCols =
      splitCols seperator (nMaxCols.toNat - 1) src := by
    rw [splitEx, if_neg (by omega)]
  have hcount : ((splitPointers src seperator pCols nMaxCols).count : ℤ) =
      min nMaxCols (getOccurCount seperator src + 1) := by
    have hlen := hr.count
    rw [Nat.zero_add, hsplit, length_splitCols_columns] at hlen
    omega
  refine ⟨hcount, hr.rest, ?_, ?_⟩
  · rw [columns_splitPointers, hsplit, intercalate_splitCols hne]
  · intro hmax
    refine ⟨by omega, ?_⟩
    intro column hcol
    rw [columns_splitPointers, hsplit, splitCols_rows hne (by omega)] at hcol
    exact notMem_of_mem_splitOn hcol

/-- Three rows, the middle one empty, in an array of three. -/
theorem splitPointers_columns_rows :
    (splitPointers (ascii "a::b" ++ [0]) 58 (fun _ => 7) 3).columns =
        [ascii "a", [], ascii "b"] ∧
      CutAsCounted (ascii "a::b" ++ [0]) 58 (fun _ => 7) 3
        (splitPointers (ascii "a::b" ++ [0]) 58 (fun _ => 7) 3) :=
  ⟨by decide, splitPointers_columns (by decide) (by decide)⟩

end Columns

end DemoStorage.ColumnSplits
