import DemoStorage.SortedSearch
import DemoStorage.DaemonState

/-!
# Ini files

A file is read in pieces of a line, at most 511 bytes each. A piece that is neither blank
nor a comment and has an equals sign is an item, its name cut to 64 and its value to 128
bytes. The items are sorted by name, and a value is looked up by binary search.
-/

namespace DemoStorage.IniFiles
open ByteStrings PosixFileTree MetadataRecords DaemonState SortedSearch

def INI_ITEM_NAME_LEN : ℕ := 64
def INI_ITEM_VALUE_LEN : ℕ := 128
def LINE_BUFFER_SIZE : ℕ := 512
def ALLOC_ITEMS_ONCE : ℕ := 8

structure IniItemInfo where
  name : Bytes
  value : Bytes
  name_length : name.length ≤ INI_ITEM_NAME_LEN
  value_length : value.length ≤ INI_ITEM_VALUE_LEN
  deriving DecidableEq

/-- The bytes `trim_left` and `trim_right` take away. -/
def isBlank (c : Byte) : Bool := c = 32 || c = 10 || c = 13 || c = 9

def trimRight (s : Bytes) : Bytes := (s.reverse.dropWhile isBlank).reverse

def trimLeft (s : Bytes) : Bytes := s.dropWhile isBlank

def trim (s : Bytes) : Bytes := trimLeft (trimRight s)

theorem length_trim_le (s : Bytes) : (trim s).length ≤ s.length := by
  have h1 := (List.dropWhile_sublist isBlank (l := trimRight s)).length_le
  have h2 := (List.dropWhile_sublist isBlank (l := s.reverse)).length_le
  simp only [trim, trimLeft, trimRight, List.length_reverse] at h1 h2 ⊢
  omega

/-- `fgets` with room for `k` bytes, and what is left to read. -/
def fgets : ℕ → Bytes → Bytes × Bytes
  | 0, s => ([], s)
  | _ + 1, [] => ([], [])
  | k + 1, c :: s => if c = 10 then ([c], s) else
    let r := fgets k s
    (c :: r.1, r.2)

/-- The item of a line, if it is one. -/
def lineItem (line : Bytes) : Option IniItemInfo :=
  let szLineBuff := trim (cstr line)
  if szLineBuff.head? = some 35 ∨ szLineBuff = [] then none
  else (strchr 61 szLineBuff).map fun r => {
    name := trim (r.1.take INI_ITEM_NAME_LEN)
    value := trim (r.2.take INI_ITEM_VALUE_LEN)
    name_length := (length_trim_le _).trans (List.length_take_le _ _)
    value_length := (length_trim_le _).trans (List.length_take_le _ _) }

/-- The items of a text in their order, with a bound on the lines. -/
def readItems : ℕ → Bytes → List IniItemInfo
  | 0, _ => []
  | fuel + 1, text =>
    if text = [] then []
    else
      let r := fgets (LINE_BUFFER_SIZE - 1) text
      (lineItem r.1).toList ++ readItems fuel r.2

/-- `strcmp` of the names is not positive. -/
def compareByItemName (a b : IniItemInfo) : Bool := a.name ≤ b.name

/-- The C library's `qsort` on items: some sorted permutation. -/
structure IniQsort where
  sort : List IniItemInfo → List IniItemInfo
  perm : ∀ l, (sort l).Perm l
  sorted : ∀ l, (sort l).Pairwise fun a b => compareByItemName a b

/-- The failures of `iniLoadItems` with their error numbers. -/
structure IniFaults where
  malloc : Option Errno := none
  fopen : Option Errno := none
  realloc : Option Errno := none

/-- Load the items of a file with this content. The array grows with the ninth item. Behind
a failed `fopen` the source closes a null stream; here the load just fails. -/
def iniLoadItems (q : IniQsort) (f : IniFaults) (text : Bytes) : Except Errno (List IniItemInfo) :=
  match f.malloc, f.fopen with
  | some e, _ => .error (errnoOr e ENOMEM)
  | none, some e => .error (errnoOr e ENOMEM)
  | none, none =>
    let items := readItems text.length text
    match f.realloc with
    | some e =>
      if ALLOC_ITEMS_ONCE < items.length then .error (errnoOr e ENOMEM) else .ok (q.sort items)
    | none => .ok (q.sort items)

def iniGetStrValue (szName : Bytes) (items : List IniItemInfo) : Option Bytes :=
  (search IniItemInfo.name items (szName.take INI_ITEM_NAME_LEN)).map IniItemInfo.value

def iniGetIntValue (szName : Bytes) (items : List IniItemInfo) (nDefaultValue : ℤ) : ℤ :=
  match iniGetStrValue szName items with
  | none => nDefaultValue
  | some value => atoi value

/-! A text of plain names and values is read back. -/

section Reading

/-- A byte that is no blank, no separator, no comment sign and no terminator. -/
def isPlain (c : Byte) : Bool := !isBlank c && c ≠ 0 && c ≠ 35 && c ≠ 61

def Plain (s : Bytes) : Prop := ∀ c ∈ s, isPlain c = true

theorem isPlain_iff {c : Byte} :
    isPlain c = true ↔ isBlank c = false ∧ c ≠ 0 ∧ c ≠ 35 ∧ c ≠ 61 := by
  simp [isPlain, and_assoc]

private theorem isPlain_digitChar (d : Fin 10) : isPlain (digitChar d) = true := by
  revert d
  decide

theorem plain_decimal (n : ℤ) : Plain (decimal n) := by
  have hnum (m : ℕ) : Plain (numeral 10 m) := by
    intro c hc
    rw [numeral_eq_map] at hc
    obtain ⟨d, hd, rfl⟩ := List.mem_map.mp hc
    exact isPlain_digitChar ⟨d, numeralDigits_lt (by decide) d hd⟩
  intro c hc
  unfold decimal at hc
  split at hc
  · rcases List.mem_cons.mp hc with rfl | hc
    · decide
    · exact hnum _ c hc
  · exact hnum _ c hc

/-- The digits of an `int` are ten at most. -/
theorem length_decimal_le {n : ℤ} (h0 : -2147483648 ≤ n) (h1 : n < 2147483648) :
    (decimal n).length ≤ 11 := by
  have hnum : (numeral 10 n.natAbs).length ≤ 10 := by
    have hn : n.natAbs < 10 ^ 10 := by omega
    rw [numeral_eq_map, List.length_map, numeralDigits]
    split_ifs
    · simp
    · rw [List.length_reverse]
      exact (Nat.digits_length_le_iff (by decide) _).mpr hn
  unfold decimal
  split
  · simp only [List.length_cons]
    omega
  · omega

theorem fgets_line {k : ℕ} {line : Bytes} (hline : 10 ∉ line) (hk : line.length < k)
    (rest : Bytes) : fgets k (line ++ 10 :: rest) = (line ++ [10], rest) := by
  induction line generalizing k with
  | nil =>
    cases k with
    | zero => cases hk
    | succ k => rfl
  | cons c line ih =>
    cases k with
    | zero => cases hk
    | succ k =>
      obtain ⟨hc, hline⟩ : 10 ≠ c ∧ 10 ∉ line := by simpa using hline
      rw [List.cons_append, fgets, if_neg (Ne.symm hc), ih hline (Nat.lt_of_succ_lt_succ hk)]
      rfl

/-- A text of short lines is read line by line. -/
theorem readItems_lines {ls : List Bytes} {fuel : ℕ} (hfuel : ls.length ≤ fuel)
    (hls : ∀ l ∈ ls, 10 ∉ l ∧ l.length < LINE_BUFFER_SIZE - 1) :
    readItems fuel (ls.flatMap fun l => l ++ [10]) =
      ls.filterMap fun l => lineItem (l ++ [10]) := by
  induction ls generalizing fuel with
  | nil => cases fuel <;> rfl
  | cons l ls ih =>
    cases fuel with
    | zero => simp at hfuel
    | succ fuel =>
      obtain ⟨hnl, hlen⟩ := hls l List.mem_cons_self
      have htail := ih (Nat.le_of_succ_le_succ hfuel) fun l hl => hls l (List.mem_cons_of_mem _ hl)
      have hne : l ++ 10 :: ls.flatMap (fun l => l ++ [10]) ≠ [] := by simp
      rw [List.flatMap_cons, List.append_assoc, List.singleton_append, readItems, if_neg hne]
      simp only [fgets_line hnl hlen, htail, List.filterMap_cons]
      cases lineItem (l ++ [10]) <;> rfl

theorem trim_solid {s b : Bytes} (hs : ∀ c ∈ s, isBlank c = false) (hb : ∀ c ∈ b, isBlank c = true) :
    trim (s ++ b) = s := by
  have hkeep {l : Bytes} (hl : ∀ c ∈ l, isBlank c = false) : l.dropWhile isBlank = l := by
    cases l with
    | nil => rfl
    | cons c l => rw [List.dropWhile_cons_of_neg (by simp [hl c List.mem_cons_self])]
  have hright : trimRight (s ++ b) = s := by
    rw [trimRight, List.reverse_append, List.dropWhile_append_of_pos (by simpa using hb),
      hkeep (by simpa using hs), List.reverse_reverse]
  rw [trim, hright, trimLeft, hkeep hs]

/-- A line of a plain name and a plain value is their item. -/
theorem lineItem_plain {name value : Bytes} (hp : Plain name) (hne : name ≠ []) (hq : Plain value)
    (hn : name.length ≤ INI_ITEM_NAME_LEN) (hv : value.length ≤ INI_ITEM_VALUE_LEN) :
    lineItem (name ++ 61 :: value ++ [10]) = some ⟨name, value, hn, hv⟩ := by
  have hzero : 0 ∉ name ++ 61 :: value ++ [10] := by
    intro h
    simp only [List.append_assoc, List.cons_append, List.mem_append, List.mem_cons] at h
    rcases h with h | h | h | h | h
    · exact (isPlain_iff.mp (hp 0 h)).2.1 rfl
    · cases h
    · exact (isPlain_iff.mp (hq 0 h)).2.1 rfl
    · cases h
    · cases h
  have hsolid : ∀ c ∈ name ++ 61 :: value, isBlank c = false := by
    intro c hc
    rcases List.mem_append.mp hc with h | h
    · exact (isPlain_iff.mp (hp c h)).1
    · rcases List.mem_cons.mp h with rfl | h
      · rfl
      · exact (isPlain_iff.mp (hq c h)).1
  have htrim : trim (cstr (name ++ 61 :: value ++ [10])) = name ++ 61 :: value := by
    rw [cstr_eq_self hzero]
    exact trim_solid hsolid (List.forall_mem_singleton.mpr rfl)
  have hself {s : Bytes} (hs : Plain s) : trim s = s := by
    have := trim_solid (s := s) (b := []) (fun c hc => (isPlain_iff.mp (hs c hc)).1) (by simp)
    rwa [List.append_nil] at this
  have hhead : (name ++ 61 :: value).head? ≠ some 35 := by
    obtain ⟨c, name, rfl⟩ := List.exists_cons_of_ne_nil hne
    have hc := (isPlain_iff.mp (hp c List.mem_cons_self)).2.2.1
    simpa using hc
  have hchr : strchr 61 (name ++ 61 :: value) = some (name, value) := by
    refine strchr_append (fun h => ?_) (fun h => ?_) (by decide) value
    · exact (isPlain_iff.mp (hp 0 h)).2.1 rfl
    · exact (isPlain_iff.mp (hp 61 h)).2.2.2 rfl
  have hnil : name ++ 61 :: value ≠ [] := by simp
  simp only [lineItem, htrim, hhead, hnil, or_self, if_false, hchr, Option.map_some,
    List.take_of_length_le hn, List.take_of_length_le hv, hself hp, hself hq]

/-- The text of names and values, a line each. -/
def iniText (ps : List (Bytes × Bytes)) : Bytes := ps.flatMap fun p => p.1 ++ 61 :: (p.2 ++ [10])

/-- A name and a value that survive being written and read. -/
structure PlainPair (p : Bytes × Bytes) : Prop where
  name : Plain p.1
  name_ne : p.1 ≠ []
  value : Plain p.2
  name_length : p.1.length ≤ INI_ITEM_NAME_LEN
  value_length : p.2.length ≤ INI_ITEM_VALUE_LEN

theorem readItems_iniText {ps : List (Bytes × Bytes)} (hps : ∀ p ∈ ps, PlainPair p) {fuel : ℕ}
    (hfuel : ps.length ≤ fuel) :
    (readItems fuel (iniText ps)).map (fun i => (i.name, i.value)) = ps := by
  have hlines : iniText ps = (ps.map fun p => p.1 ++ 61 :: p.2).flatMap fun l => l ++ [10] := by
    simp [iniText, List.flatMap_map]
  rw [hlines, readItems_lines (by simpa using hfuel)]
  · rw [List.filterMap_map, List.map_filterMap]
    refine (List.filterMap_congr fun p hp => ?_).trans List.filterMap_some
    obtain ⟨h1, h2, h3, h4, h5⟩ := hps p hp
    simp only [Function.comp_apply, lineItem_plain h1 h2 h3 h4 h5, Option.map_some]
  · intro l hl
    obtain ⟨p, hp, rfl⟩ := List.mem_map.mp hl
    obtain ⟨h1, -, h3, h4, h5⟩ := hps p hp
    constructor
    · intro h
      rcases List.mem_append.mp h with h | h
      · exact absurd (h1 10 h) (by decide)
      · rcases List.mem_cons.mp h with h | h
        · cases h
        · exact absurd (h3 10 h) (by decide)
    · have hn : INI_ITEM_NAME_LEN = 64 := rfl
      have hv : INI_ITEM_VALUE_LEN = 128 := rfl
      have hb : LINE_BUFFER_SIZE = 512 := rfl
      simp only [List.length_append, List.length_cons]
      omega

/-- With different names the value of each item is found by its name. -/
theorem iniGetStrValue_sort (q : IniQsort) {items : List IniItemInfo}
    (hnames : (items.map IniItemInfo.name).Nodup) {i : IniItemInfo} (hi : i ∈ items) :
    iniGetStrValue i.name (q.sort items) = some i.value := by
  have hsorted : (q.sort items).Pairwise fun a b => a.name < b.name := by
    have hdistinct : (q.sort items).Pairwise fun a b => a.name ≠ b.name :=
      List.pairwise_map.mp (((q.perm items).map IniItemInfo.name).nodup_iff.mpr hnames)
    refine ((q.sorted items).and hdistinct).imp fun h => ?_
    exact Std.lt_of_le_of_ne (by simpa [compareByItemName] using h.1) h.2
  have hfound := search_eq_some hsorted ((q.perm items).mem_iff.mpr hi)
  rw [iniGetStrValue, List.take_of_length_le i.name_length, hfound]
  rfl

/-- What was written as an item is loaded under its name. -/
theorem iniGetStrValue_iniText (q : IniQsort) {ps : List (Bytes × Bytes)}
    (hps : ∀ p ∈ ps, PlainPair p) (hnames : (ps.map Prod.fst).Nodup) {fuel : ℕ}
    (hfuel : ps.length ≤ fuel) {name value : Bytes} (hp : (name, value) ∈ ps) :
    iniGetStrValue name (q.sort (readItems fuel (iniText ps))) = some value := by
  have hread := readItems_iniText hps hfuel
  generalize readItems fuel (iniText ps) = items at hread
  subst hread
  obtain ⟨i, hi, he⟩ := List.mem_map.mp hp
  cases he
  refine iniGetStrValue_sort q ?_ hi
  simpa [Function.comp_def] using hnames

end Reading

/-- Insertion sort meets what is asked of `qsort`. -/
def insertionIniQsort : IniQsort where
  sort l := l.insertionSort fun a b => compareByItemName a b = true
  perm l := List.perm_insertionSort _ l
  sorted l := by
    have : Std.Total fun a b : IniItemInfo => compareByItemName a b = true :=
      ⟨fun a b => by simpa [compareByItemName] using List.le_total a.name b.name⟩
    have : IsTrans IniItemInfo fun a b => compareByItemName a b = true :=
      ⟨fun a b c => by simpa [compareByItemName] using fun h h' => List.le_trans h h'⟩
    exact List.pairwise_insertionSort _ l

end DemoStorage.IniFiles
