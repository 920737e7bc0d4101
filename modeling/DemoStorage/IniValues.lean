import DemoStorage.IniFiles

/-!
# All values of a name

`iniGetValues` starts at the item `bsearch` lands on and scans outwards, first backwards and then
forwards, each until the name changes or the array ends. In a sorted array the items of a name
stand together, so that the scans meet each of them once, wherever they start.
-/

namespace DemoStorage.IniValues
open ByteStrings SortedSearch IniFiles

/-- The C library's `bsearch` on items: the index of some item of the name, and of one at least if
the array is sorted and holds any. -/
structure IniBsearch where
  find : Bytes → List IniItemInfo → Option ℕ
  found : ∀ name items i, find name items = some i →
    ∃ item, items[i]? = some item ∧ item.name = name
  complete : ∀ name items, items.Pairwise (fun a b => compareByItemName a b) →
    (∃ item ∈ items, item.name = name) → (find name items).isSome

/-- The index of an item with the name. -/
def named (szName : Bytes) (items : List IniItemInfo) (i : ℕ) : Bool :=
  items[i]?.map IniItemInfo.name = some szName

/-- One of the two scans: the indices it comes to, and those whose values are stored already. It
stops at another name; with the output full it goes on without storing. -/
def scanValues (szName : Bytes) (items : List IniItemInfo) (maxValues : ℤ) :
    List ℕ → List ℕ → List ℕ
  | [], ppValues => ppValues
  | i :: rest, ppValues =>
    if ¬ named szName items i then ppValues
    else scanValues szName items maxValues rest
      (if ppValues.length < maxValues then ppValues ++ [i] else ppValues)

/-- The items whose values are stored, by their indices and in the order of the output; the result
is their number. -/
def iniGetValues (b : IniBsearch) (szName : Bytes) (items : List IniItemInfo) (maxValues : ℤ) :
    List ℕ :=
  if items = [] ∨ maxValues ≤ 0 then []
  else match b.find (szName.take INI_ITEM_NAME_LEN) items with
    | none => []
    | some pFound =>
      let before := scanValues szName items maxValues (List.range pFound).reverse [pFound]
      scanValues szName items maxValues
        (List.range' (pFound + 1) (items.length - (pFound + 1))) before

section Scans
variable {szName : Bytes} {items : List IniItemInfo} {maxValues : ℤ}

/-- A scan stores the matches it meets before the first other name, as far as there is room. -/
theorem scanValues_eq (cand ppValues : List ℕ) :
    scanValues szName items maxValues cand ppValues =
      ppValues ++ (cand.takeWhile (named szName items)).take
        (maxValues.toNat - ppValues.length) := by
  induction cand generalizing ppValues with
  | nil => simp [scanValues]
  | cons i cand ih =>
    rw [scanValues]
    by_cases hi : named szName items i = true
    · rw [if_neg (not_not.mpr hi), ih, List.takeWhile_cons_of_pos hi]
      by_cases hroom : (ppValues.length : ℤ) < maxValues
      · obtain ⟨k, hk⟩ : ∃ k, maxValues.toNat - ppValues.length = k + 1 :=
          ⟨maxValues.toNat - ppValues.length - 1, by omega⟩
        have hk' : maxValues.toNat - (ppValues ++ [i]).length = k := by
          rw [List.length_append, List.length_singleton]
          omega
        rw [if_pos hroom, hk, hk', List.take_succ_cons, List.append_assoc]
        rfl
      · have hfull : maxValues.toNat - ppValues.length = 0 := by omega
        rw [if_neg hroom, hfull, List.take_zero, List.take_zero]
    · rw [if_pos hi, List.takeWhile_cons_of_neg hi, List.take_nil, List.append_nil]

/-- The indices of the items with the name. -/
def matching (szName : Bytes) (items : List IniItemInfo) : List ℕ :=
  (List.range items.length).filter (named szName items)

theorem named_iff {i : ℕ} : named szName items i = true ↔
    ∃ item, items[i]? = some item ∧ item.name = szName := by
  simp [named]

theorem length_matching : (matching szName items).length =
    items.countP fun item => item.name = szName := by
  have hmap : (List.range items.length).map (fun i => items[i]?) = items.map some := by
    apply List.ext_getElem
    · simp
    · intro i h1 h2
      simp at h1
      simp [List.getElem?_eq_getElem h1]
  have hcount := congrArg (List.countP fun o => o.map IniItemInfo.name = some szName) hmap
  rw [List.countP_map, List.countP_map] at hcount
  rw [matching, ← List.countP_eq_length_filter]
  refine Eq.trans hcount (List.countP_congr fun item _ => ?_)
  simp

/-- In a sorted array the matches stand together. -/
theorem named_between (hs : items.Pairwise fun a b => compareByItemName a b) {i j k : ℕ}
    (hij : i ≤ j) (hjk : j ≤ k) (hi : named szName items i = true)
    (hk : named szName items k = true) : named szName items j = true := by
  obtain ⟨first, hfirst, hname⟩ := named_iff.mp hi
  obtain ⟨last, hlast, hname'⟩ := named_iff.mp hk
  obtain ⟨hi', rfl⟩ := List.getElem?_eq_some_iff.mp hfirst
  obtain ⟨hk', rfl⟩ := List.getElem?_eq_some_iff.mp hlast
  have hj : j < items.length := by omega
  have hle {m n : ℕ} (hm : m < items.length) (hn : n < items.length) (h : m ≤ n) :
      items[m].name ≤ items[n].name := by
    rcases Nat.lt_or_eq_of_le h with h | rfl
    · simpa [compareByItemName] using List.pairwise_iff_getElem.mp hs _ _ hm hn h
    · exact List.le_refl _
  refine named_iff.mpr ⟨items[j], List.getElem?_eq_getElem hj, ?_⟩
  exact Std.le_antisymm (hname' ▸ hle hj hk' hjk) (hname ▸ hle hi' hj hij)

/-- The scans from a match outwards meet every match. -/
theorem scans_matching (hs : items.Pairwise fun a b => compareByItemName a b) {pFound : ℕ}
    (hfound : named szName items pFound = true) :
    (pFound :: ((List.range pFound).reverse.takeWhile (named szName items) ++
      (List.range' (pFound + 1) (items.length - (pFound + 1))).takeWhile
        (named szName items))).Perm (matching szName items) := by
  have hlt : pFound < items.length := by
    obtain ⟨item, hitem, -⟩ := named_iff.mp hfound
    exact (List.getElem?_eq_some_iff.mp hitem).1
  have hbefore : (List.range pFound).reverse.takeWhile (named szName items) =
      ((List.range pFound).filter (named szName items)).reverse := by
    rw [takeWhile_eq_filter, List.filter_reverse]
    refine List.pairwise_reverse.mpr (List.pairwise_lt_range.imp_of_mem fun ha hb hlt hname => ?_)
    exact named_between hs hlt.le (List.mem_range.mp hb).le hname hfound
  have hbehind : (List.range' (pFound + 1) (items.length - (pFound + 1))).takeWhile
      (named szName items) = (List.range' (pFound + 1) (items.length - (pFound + 1))).filter
        (named szName items) := by
    refine takeWhile_eq_filter ((List.pairwise_lt_range' 1).imp_of_mem fun ha hb hlt hname => ?_)
    have hle := (List.mem_range'_1.mp ha).1
    exact named_between hs (by omega) hlt.le hfound hname
  have hrange : List.range items.length = List.range pFound ++
      pFound :: List.range' (pFound + 1) (items.length - (pFound + 1)) := by
    have hlen : items.length = pFound + (items.length - (pFound + 1) + 1) := by omega
    conv_lhs => rw [hlen, List.range_eq_range', ← List.range'_append_1, List.range'_succ]
    rw [List.range_eq_range', Nat.zero_add]
  rw [hbefore, hbehind, matching, hrange, List.filter_append, List.filter_cons_of_pos hfound]
  refine (List.Perm.cons _ ((List.reverse_perm _).append_right _)).trans ?_
  exact List.perm_middle.symm

end Scans

section Values
variable {b : IniBsearch} {szName : Bytes} {items : List IniItemInfo} {maxValues : ℤ}

theorem iniGetValues_of_found {pFound : ℕ} (hmax : 0 < maxValues)
    (hfind : b.find (szName.take INI_ITEM_NAME_LEN) items = some pFound) :
    iniGetValues b szName items maxValues =
      (pFound :: ((List.range pFound).reverse.takeWhile (named szName items) ++
        (List.range' (pFound + 1) (items.length - (pFound + 1))).takeWhile
          (named szName items))).take maxValues.toNat := by
  obtain ⟨k, hk⟩ : ∃ k, maxValues.toNat = k + 1 := ⟨maxValues.toNat - 1, by omega⟩
  have hne : items ≠ [] := by
    rintro rfl
    obtain ⟨item, hitem, -⟩ := b.found _ _ _ hfind
    cases hitem
  rw [iniGetValues, if_neg (not_or.mpr ⟨hne, not_le.mpr hmax⟩), hfind]
  dsimp only
  rw [scanValues_eq, scanValues_eq, hk, List.length_singleton, Nat.add_sub_cancel,
    List.take_succ_cons, List.take_append, List.singleton_append, List.length_cons,
    List.length_take]
  have hroom (n : ℕ) : k + 1 - (min k n + 1) = k - n := by omega
  rw [hroom]
  rfl

/-- Wherever `bsearch` lands, the values are a part of the matches as large as the output holds. -/
theorem iniGetValues_matching (b : IniBsearch)
    (hs : items.Pairwise fun a b => compareByItemName a b)
    (hname : szName.length ≤ INI_ITEM_NAME_LEN) (maxValues : ℤ) :
    ∃ l : List ℕ, l.Perm (matching szName items) ∧
      iniGetValues b szName items maxValues = l.take maxValues.toNat := by
  by_cases hmax : 0 < maxValues
  · have htake : szName.take INI_ITEM_NAME_LEN = szName := List.take_of_length_le hname
    cases hfind : b.find (szName.take INI_ITEM_NAME_LEN) items with
    | none =>
      have hnone : matching szName items = [] := by
        rw [← List.length_eq_zero_iff, length_matching, List.countP_eq_zero]
        intro item hitem heq
        have hsome := b.complete szName items hs ⟨item, hitem, by simpa using heq⟩
        rw [← htake, hfind] at hsome
        cases hsome
      refine ⟨[], hnone ▸ List.Perm.refl _, ?_⟩
      rw [iniGetValues, hfind, List.take_nil]
      split <;> rfl
    | some pFound =>
      have hfound : named szName items pFound = true := by
        rw [named_iff]
        rw [htake] at hfind
        exact b.found _ _ _ hfind
      exact ⟨_, scans_matching hs hfound, iniGetValues_of_found hmax hfind⟩
  · refine ⟨_, List.Perm.refl _, ?_⟩
    have hzero : maxValues.toNat = 0 := by omega
    rw [iniGetValues, if_pos (.inr (not_lt.mp hmax)), hzero, List.take_zero]

/-- The C library's halving search is such a `bsearch`. -/
def halvingBsearch : IniBsearch where
  find name items := searchIndex IniItemInfo.name items name
  found name items i h := by
    obtain ⟨item, hitem, habove, hbelow⟩ := searchIndexFrom_found _ _ _ h
    exact ⟨item, hitem, Std.le_antisymm (List.not_lt.mp habove) (List.not_lt.mp hbelow)⟩
  complete name items hs h := by
    obtain ⟨item, hitem, rfl⟩ := h
    refine searchIndex_isSome (hs.imp fun hle => ?_) hitem
    exact List.not_lt.mpr (by simpa [compareByItemName] using hle)

/-- In a sorted array `iniGetValues` returns each item of the name once, and as many of them as the
output holds. -/
theorem iniGetValues_values (b : IniBsearch)
    (hs : items.Pairwise fun a b => compareByItemName a b)
    (hname : szName.length ≤ INI_ITEM_NAME_LEN) (maxValues : ℤ) :
    let values := iniGetValues b szName items maxValues
    let k := items.countP fun item => item.name = szName
    (values.length : ℤ) = (if maxValues ≤ 0 then 0 else min (k : ℤ) maxValues) ∧
      values.Nodup ∧
      (∀ i ∈ values, ∃ item, items[i]? = some item ∧ item.name = szName) ∧
      (k ≤ maxValues → ∀ i item, items[i]? = some item → item.name = szName →
        values.count i = 1) := by
  obtain ⟨l, hperm, hvalues⟩ := iniGetValues_matching b hs hname maxValues
  have hlen : l.length = items.countP fun item => item.name = szName :=
    hperm.length_eq.trans length_matching
  have hnodup : l.Nodup := hperm.nodup_iff.mpr (List.nodup_range.filter _)
  dsimp only
  rw [hvalues]
  refine ⟨?_, hnodup.sublist (List.take_sublist _ _), ?_, ?_⟩
  · rw [List.length_take, hlen]
    split <;> omega
  · intro i hi
    have hmem := hperm.mem_iff.mp (List.mem_of_mem_take hi)
    exact named_iff.mp (List.mem_filter.mp hmem).2
  · intro hk i item hitem hitemName
    have hall : l.take maxValues.toNat = l := List.take_of_length_le (by omega)
    have hmem : i ∈ matching szName items := by
      rw [matching, List.mem_filter, List.mem_range]
      exact ⟨(List.getElem?_eq_some_iff.mp hitem).1, named_iff.mpr ⟨item, hitem, hitemName⟩⟩
    rw [hall]
    exact List.count_eq_one_of_mem hnodup (hperm.mem_iff.mpr hmem)

/-- Three servers among five items, all of them and two of them. -/
theorem iniGetValues_values_servers :
    let item (name value : String) : IniItemInfo :=
      ⟨(ascii name).take 64, (ascii value).take 128, List.length_take_le _ _,
        List.length_take_le _ _⟩
    let items := [item "port" "1", item "server" "a", item "server" "b", item "server" "c",
      item "wait" "2"]
    (iniGetValues halvingBsearch (ascii "server") items 16).length = 3 ∧
      (iniGetValues halvingBsearch (ascii "server") items 2).length = 2 := by
  intro item items
  have hs : items.Pairwise fun a b => compareByItemName a b := by decide
  have hall := (iniGetValues_values halvingBsearch hs
    (show (ascii "server").length ≤ INI_ITEM_NAME_LEN by decide) 16).1
  have htwo := (iniGetValues_values halvingBsearch hs
    (show (ascii "server").length ≤ INI_ITEM_NAME_LEN by decide) 2).1
  have hk : items.countP (fun item => item.name = ascii "server") = 3 := by decide
  rw [hk] at hall htwo
  exact ⟨by exact_mod_cast hall, by exact_mod_cast htwo⟩

end Values

end DemoStorage.IniValues
