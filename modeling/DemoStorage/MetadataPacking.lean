import DemoStorage.SeparatedLists
import DemoStorage.MetadataRecords

/-!
# Splitting, sorting and packing metadata

The rows of a metadata text are the pieces between its record separators; its records are the
rows with a field separator, each cut to its arrays. Splitting finds these records, packing
joins records again, and sorting does both in one buffer. What is dropped or cut makes the
packed text shorter than the buffer, so that it fits.
-/

namespace DemoStorage.MetadataPacking
open ByteStrings SeparatedLists PosixFileTree MetadataRecords

section Records

/-- The record a row holds: its name ends at the first field separator. -/
def rowRecord (row : Bytes) : Option FDFSMetaData :=
  if FDFS_FIELD_SEPERATOR ∈ row then
    some (.cut (row.takeWhile (· ≠ FDFS_FIELD_SEPERATOR))
      (row.dropWhile (· ≠ FDFS_FIELD_SEPERATOR)).tail)
  else none

/-- The records of a metadata text, in the order of their rows. -/
def records (text : Bytes) : List FDFSMetaData :=
  (text.splitOn FDFS_RECORD_SEPERATOR).filterMap rowRecord

/-- A record as a row. -/
def recordRow (m : FDFSMetaData) : Bytes := m.name ++ FDFS_FIELD_SEPERATOR :: m.value

/-- The records as a text: their rows, joined by the record separator. -/
noncomputable def packed (l : List FDFSMetaData) : Bytes :=
  [FDFS_RECORD_SEPERATOR].intercalate (l.map recordRow)

theorem zero_notMem_recordRow (m : FDFSMetaData) : 0 ∉ recordRow m := by
  simp [recordRow, m.name_cstr, m.value_cstr, FDFS_FIELD_SEPERATOR]

theorem length_recordRow_le (m : FDFSMetaData) : (recordRow m).length ≤ 321 := by
  have hn := m.name_length
  have hv := m.value_length
  simp only [FDFS_MAX_META_NAME_LEN, FDFS_MAX_META_VALUE_LEN] at hn hv
  simp only [recordRow, List.length_append, List.length_cons]
  omega

theorem rowRecord_append {name : Bytes} (hc : FDFS_FIELD_SEPERATOR ∉ name) (value : Bytes) :
    rowRecord (name ++ FDFS_FIELD_SEPERATOR :: value) = some (.cut name value) := by
  have hne : ∀ x ∈ name, decide (x ≠ FDFS_FIELD_SEPERATOR) = true := by
    intro x hx
    exact decide_eq_true fun he => hc (he ▸ hx)
  rw [rowRecord, if_pos (by simp), List.takeWhile_append_of_pos hne,
    List.dropWhile_append_of_pos hne]
  simp

end Records

section Splitting
variable {c : Byte} {s : Bytes}

theorem getOccurCount_append {row : Bytes} (h0 : 0 ∉ row) (hc : c ∉ row) (hne : c ≠ 0)
    (rest : Bytes) : getOccurCount c (row ++ c :: rest) = getOccurCount c rest + 1 := by
  induction row with
  | nil => simp [getOccurCount, hne]
  | cons x row ih =>
    obtain ⟨hx0, h0⟩ : 0 ≠ x ∧ 0 ∉ row := by simpa using h0
    obtain ⟨hxc, hc⟩ : c ≠ x ∧ c ∉ row := by simpa using hc
    rw [List.cons_append, getOccurCount, if_neg (Ne.symm hx0), if_neg (Ne.symm hxc), ih h0 hc]

theorem cstr_append_cons {row : Bytes} (h0 : 0 ∉ row) (hne : c ≠ 0) (rest : Bytes) :
    cstr (row ++ c :: rest) = row ++ c :: cstr rest := by
  rw [cstr_append h0, cstr, if_neg hne]

/-- With enough columns the split yields every piece of the string. -/
theorem splitCols_rows (hne : c ≠ 0) {k : ℕ} (hk : getOccurCount c s ≤ k) :
    (splitCols c k s).1 = (cstr s).splitOn c := by
  induction k generalizing s with
  | zero =>
    cases hs : strchr c s with
    | none => rw [splitCols, List.splitOn_eq_singleton (strchr_eq_none hs)]
    | some f =>
      obtain ⟨hs, h0, hc⟩ := strchr_eq_some hs
      rw [hs, getOccurCount_append h0 hc hne] at hk
      omega
  | succ k ih =>
    rw [splitCols]
    cases hs : strchr c s with
    | none => rw [List.splitOn_eq_singleton (strchr_eq_none hs)]
    | some f =>
      obtain ⟨hs, h0, hc⟩ := strchr_eq_some hs
      rw [hs, getOccurCount_append h0 hc hne] at hk
      rw [hs, cstr_append_cons h0 hne, List.splitOn_append_cons_self_of_not_mem hc]
      dsimp only
      rw [ih (by omega)]

theorem length_splitCols (k : ℕ) : (splitCols c k s).2.length = s.length := by
  induction k generalizing s with
  | zero => rfl
  | succ k ih =>
    rw [splitCols]
    cases hs : strchr c s with
    | none => rfl
    | some f =>
      obtain ⟨hs, -, -⟩ := strchr_eq_some hs
      dsimp only
      rw [List.length_append, List.length_cons, ih]
      conv_rhs => rw [hs, List.length_append, List.length_cons]

/-- The fields that `strchr` finds in a row are those of its record. -/
theorem rowRecord_eq {row : Bytes} (h0 : 0 ∉ row) :
    (strchr FDFS_FIELD_SEPERATOR row).map (fun f => FDFSMetaData.cut f.1 f.2) = rowRecord row := by
  cases hs : strchr FDFS_FIELD_SEPERATOR row with
  | none =>
    have hm := strchr_eq_none hs
    rw [cstr_eq_self h0] at hm
    rw [rowRecord, if_neg hm]
    rfl
  | some f =>
    obtain ⟨hrow, -, hc⟩ := strchr_eq_some hs
    rw [hrow, rowRecord_append hc]
    rfl

/-- Splitting a buffer yields the records of its string. -/
theorem fdfsSplitMetadataEx_records (buff : Bytes) :
    (fdfsSplitMetadataEx buff FDFS_RECORD_SEPERATOR FDFS_FIELD_SEPERATOR).1 =
      records (cstr buff) := by
  have hcols : ((getOccurCount FDFS_RECORD_SEPERATOR buff : ℤ) + 1).toNat - 1 =
      getOccurCount FDFS_RECORD_SEPERATOR buff := by omega
  rw [fdfsSplitMetadataEx, splitEx, if_neg (by omega), hcols,
    splitCols_rows (by decide) le_rfl, records]
  exact List.filterMap_congr fun row hrow => rowRecord_eq fun h0 =>
    zero_notMem_cstr buff (mem_of_mem_splitOn hrow h0)

end Splitting

section Packing

theorem packedRecord_eq (m : FDFSMetaData) :
    packedRecord m = recordRow m ++ [FDFS_RECORD_SEPERATOR] := by
  simp [packedRecord, recordRow]

theorem flatMap_packedRecord (l : List FDFSMetaData) :
    l.flatMap packedRecord = (l.map recordRow).flatMap (· ++ [FDFS_RECORD_SEPERATOR]) := by
  rw [List.flatMap_map]
  exact congrArg (l.flatMap ·) (funext packedRecord_eq)

theorem length_packed {l : List FDFSMetaData} (h : l ≠ []) :
    (packed l).length + 1 = weight (l.map recordRow) :=
  length_intercalate (by simpa using h)

/-- Packing in place writes the joined records and a NUL, and reports their length. -/
theorem fdfsPackMetadata_eq {l : List FDFSMetaData} (h : l ≠ []) (metaBuff : Bytes) :
    fdfsPackMetadata l metaBuff =
      (packed l ++ 0 :: metaBuff.drop ((packed l).length + 1), ((packed l).length : ℤ)) := by
  have htext : l.flatMap packedRecord = packed l ++ [FDFS_RECORD_SEPERATOR] := by
    rw [flatMap_packedRecord, flatMap_snoc _ (by simpa using h)]
    rfl
  rw [fdfsPackMetadata, htext, if_neg (by simp), List.dropLast_concat, List.length_append]
  simp

theorem zero_notMem_packed (l : List FDFSMetaData) : 0 ∉ packed l := by
  by_cases hl : l = []
  · simp [hl, packed, List.intercalate]
  · intro h0
    have hmem : 0 ∈ (l.map recordRow).flatMap (· ++ [FDFS_RECORD_SEPERATOR]) := by
      rw [flatMap_snoc _ (by simpa using hl)]
      exact List.mem_append_left _ h0
    obtain ⟨row, hrow, h0⟩ := List.mem_flatMap.mp hmem
    obtain ⟨m, -, rfl⟩ := List.mem_map.mp hrow
    rcases List.mem_append.mp h0 with h0 | h0
    · exact zero_notMem_recordRow m h0
    · exact absurd h0 (by decide)

theorem cstr_fdfsPackMetadata {l : List FDFSMetaData} (h : l ≠ []) (metaBuff : Bytes) :
    cstr (fdfsPackMetadata l metaBuff).1 = packed l := by
  rw [fdfsPackMetadata_eq h, cstr_append (zero_notMem_packed l)]
  simp [cstr]

/-- Every record fits the array allocated for it. -/
theorem weight_records_le (l : List FDFSMetaData) : weight (l.map recordRow) ≤ 322 * l.length := by
  induction l with
  | nil => simp
  | cons m l ih =>
    have hm := length_recordRow_le m
    rw [List.map_cons, weight_cons, List.length_cons]
    omega

end Packing

section RoundTrip

/-- A record whose row splits back: no separator ends its name or its row too early. -/
def Splittable (m : FDFSMetaData) : Prop :=
  FDFS_RECORD_SEPERATOR ∉ m.name ∧ FDFS_FIELD_SEPERATOR ∉ m.name ∧ FDFS_RECORD_SEPERATOR ∉ m.value

instance (m : FDFSMetaData) : Decidable (Splittable m) := inferInstanceAs (Decidable (_ ∧ _))

/-- A row that is a record within the limits. -/
def CompleteRow (row : Bytes) : Prop :=
  ∃ name value : Bytes, row = name ++ FDFS_FIELD_SEPERATOR :: value ∧ FDFS_FIELD_SEPERATOR ∉ name ∧
    name.length ≤ FDFS_MAX_META_NAME_LEN ∧ value.length ≤ FDFS_MAX_META_VALUE_LEN

theorem cut_self (m : FDFSMetaData) : FDFSMetaData.cut m.name m.value = m := by
  obtain ⟨name, value, hn, hv, hnl, hvl⟩ := m
  simp only [FDFSMetaData.cut, cstr_eq_self hn, cstr_eq_self hv, List.take_of_length_le hnl,
    List.take_of_length_le hvl]

theorem rowRecord_recordRow {m : FDFSMetaData} (h : Splittable m) :
    rowRecord (recordRow m) = some m := by
  rw [recordRow, rowRecord_append h.2.1, cut_self]

theorem splittable_records (text : Bytes) : ∀ m ∈ records text, Splittable m := by
  intro m hm
  obtain ⟨row, hrow, hr⟩ := List.mem_filterMap.mp hm
  have hrec : FDFS_RECORD_SEPERATOR ∉ row := notMem_of_mem_splitOn hrow
  rw [rowRecord] at hr
  split at hr
  · rename_i hc
    obtain ⟨name, value, rfl, hname⟩ := List.eq_append_cons_of_mem hc
    have hcut := rowRecord_append hname value
    rw [rowRecord, if_pos hc, hr] at hcut
    obtain rfl := Option.some.inj hcut
    simp only [List.mem_append, List.mem_cons, not_or] at hrec
    refine ⟨fun h => ?_, fun h => ?_, fun h => ?_⟩
    · exact hrec.1 (mem_of_mem_cstr (List.mem_of_mem_take h))
    · exact hname (mem_of_mem_cstr (List.mem_of_mem_take h))
    · exact hrec.2.2 (mem_of_mem_cstr (List.mem_of_mem_take h))
  · cases hr

/-- Splitting undoes packing. -/
theorem records_packed {l : List FDFSMetaData} (hl : l ≠ []) (h : ∀ m ∈ l, Splittable m) :
    records (packed l) = l := by
  have hrows : ∀ row ∈ l.map recordRow, FDFS_RECORD_SEPERATOR ∉ row := by
    intro row hrow
    obtain ⟨m, hm, rfl⟩ := List.mem_map.mp hrow
    obtain ⟨hn, -, hv⟩ := h m hm
    simp only [recordRow, List.mem_append, List.mem_cons, not_or]
    exact ⟨hn, by decide, hv⟩
  rw [records, packed, List.splitOn_intercalate _ hrows (by simpa using hl), List.filterMap_map]
  have hself : ∀ m ∈ l, (rowRecord ∘ recordRow) m = some m :=
    fun m hm => rowRecord_recordRow (h m hm)
  rw [List.filterMap_congr hself, List.filterMap_some]

/-- The row that a row becomes, if it is kept. -/
def keptRow (row : Bytes) : Option Bytes := (rowRecord row).map recordRow

theorem map_recordRow_records (text : Bytes) :
    (records text).map recordRow = (text.splitOn FDFS_RECORD_SEPERATOR).filterMap keptRow := by
  rw [records, List.map_filterMap]
  rfl

theorem keptRow_append {name : Bytes} (hc : FDFS_FIELD_SEPERATOR ∉ name) (value : Bytes) :
    keptRow (name ++ FDFS_FIELD_SEPERATOR :: value) =
      some (recordRow (.cut name value)) := by
  rw [keptRow, rowRecord_append hc]
  rfl

theorem length_recordRow_cut (name value : Bytes) : (recordRow (.cut name value)).length =
    min FDFS_MAX_META_NAME_LEN (cstr name).length +
      (min FDFS_MAX_META_VALUE_LEN (cstr value).length + 1) := by
  simp [recordRow, FDFSMetaData.cut]

/-- A row that is kept has a field separator, and name and value are cut. -/
theorem keptRow_some {row s : Bytes} (h : keptRow row = some s) :
    ∃ name value, row = name ++ FDFS_FIELD_SEPERATOR :: value ∧ FDFS_FIELD_SEPERATOR ∉ name ∧
      s = recordRow (.cut name value) := by
  by_cases hc : FDFS_FIELD_SEPERATOR ∈ row
  · obtain ⟨name, value, rfl, hname⟩ := List.eq_append_cons_of_mem hc
    exact ⟨name, value, rfl, hname, Option.some.inj (h.symm.trans (keptRow_append hname value))⟩
  · rw [keptRow, rowRecord, if_neg hc] at h
    cases h

theorem length_keptRow_le (row s : Bytes) (h : keptRow row = some s) : s.length ≤ row.length := by
  obtain ⟨name, value, rfl, hname, rfl⟩ := keptRow_some h
  have hn := length_cstr_le name
  have hv := length_cstr_le value
  rw [length_recordRow_cut, List.length_append, List.length_cons]
  omega

/-- A complete row stays as it is. -/
theorem keptRow_complete {row : Bytes} (h0 : 0 ∉ row) (h : CompleteRow row) :
    keptRow row = some row := by
  obtain ⟨name, value, rfl, hname, hn, hv⟩ := h
  simp only [List.mem_append, List.mem_cons, not_or] at h0
  rw [keptRow_append hname, recordRow, FDFSMetaData.cut]
  simp only [cstr_eq_self h0.1, cstr_eq_self h0.2.2, List.take_of_length_le hn,
    List.take_of_length_le hv]

/-- A row that keeps its length is complete. -/
theorem completeRow_of_length {row s : Bytes} (h : keptRow row = some s)
    (hlen : s.length = row.length) : CompleteRow row := by
  obtain ⟨name, value, rfl, hname, rfl⟩ := keptRow_some h
  have hn := length_cstr_le name
  have hv := length_cstr_le value
  rw [length_recordRow_cut, List.length_append, List.length_cons] at hlen
  exact ⟨name, value, rfl, hname, by omega, by omega⟩

/-- What is dropped and cut leaves a text no longer than the original. -/
theorem weight_records_text_le (text : Bytes) :
    weight ((records text).map recordRow) ≤ text.length + 1 := by
  rw [map_recordRow_records, ← weight_splitOn FDFS_RECORD_SEPERATOR text]
  exact weight_filterMap_le length_keptRow_le _

/-- The length is that of the original only if every row is complete. -/
theorem weight_records_text_eq {text : Bytes} (h0 : 0 ∉ text) :
    weight ((records text).map recordRow) = text.length + 1 ↔
      ∀ row ∈ text.splitOn FDFS_RECORD_SEPERATOR, CompleteRow row := by
  rw [map_recordRow_records, ← weight_splitOn FDFS_RECORD_SEPERATOR text,
    weight_filterMap_eq length_keptRow_le]
  refine forall₂_congr fun row hrow => ⟨?_, fun hc => ?_⟩
  · rintro ⟨s, hs, hlen⟩
    exact completeRow_of_length hs hlen
  · exact ⟨row, keptRow_complete (fun hz => h0 (mem_of_mem_splitOn hrow hz)) hc, rfl⟩

/-- Packing undoes splitting where every row is complete. -/
theorem packed_records {text : Bytes} (h0 : 0 ∉ text)
    (h : ∀ row ∈ text.splitOn FDFS_RECORD_SEPERATOR, CompleteRow row) :
    records text ≠ [] ∧ packed (records text) = text := by
  have hkept : ∀ row ∈ text.splitOn FDFS_RECORD_SEPERATOR, keptRow row = some row :=
    fun row hrow => keptRow_complete (fun hz => h0 (mem_of_mem_splitOn hrow hz)) (h row hrow)
  have hrows : (records text).map recordRow = text.splitOn FDFS_RECORD_SEPERATOR := by
    rw [map_recordRow_records, List.filterMap_congr hkept, List.filterMap_some]
  refine ⟨fun he => ?_, by rw [packed, hrows, List.intercalate_splitOn]⟩
  rw [he, List.map_nil] at hrows
  exact List.splitOn_ne_nil _ _ hrows.symm

/-- `sizeof(FDFSMetaData)`: both arrays with their terminators. -/
def sizeofFDFSMetaData : ℕ := (FDFS_MAX_META_NAME_LEN + 1) + (FDFS_MAX_META_VALUE_LEN + 1)

/-- The indices `fdfs_pack_metadata` stores to: each byte of the records in turn, then the NUL
at the place it steps back to. -/
def packStores (metaList : List FDFSMetaData) : List ℤ :=
  let text := metaList.flatMap packedRecord
  (List.range text.length).map Int.ofNat ++ [(text.length : ℤ) - 1]

theorem length_flatMap_packedRecord (l : List FDFSMetaData) :
    (l.flatMap packedRecord).length = weight (l.map recordRow) := by
  rw [flatMap_packedRecord, length_flatMap_snoc]

theorem packStores_le {l : List FDFSMetaData} (h : l ≠ []) :
    ∀ j ∈ packStores l, 0 ≤ j ∧ j < weight (l.map recordRow) := by
  have hpos := length_packed h
  intro j hj
  simp only [packStores, length_flatMap_packedRecord, List.mem_append, List.mem_map,
    List.mem_range, List.mem_singleton, Int.ofNat_eq_natCast] at hj
  rcases hj with ⟨i, hi, rfl⟩ | rfl
  · omega
  · omega

/-- Packing records and splitting the text, and splitting complete rows and packing them. -/
theorem split_undoes_pack :
    (∀ (l : List FDFSMetaData) (metaBuff : Bytes), l ≠ [] → (∀ m ∈ l, Splittable m) →
      let r := fdfsPackMetadata l metaBuff
      (∀ j ∈ packStores l, 0 ≤ j ∧ j < sizeofFDFSMetaData * l.length) ∧
        r.2 = (cstr r.1).length ∧
        (fdfsSplitMetadataEx r.1 FDFS_RECORD_SEPERATOR FDFS_FIELD_SEPERATOR).1 = l) ∧
    (∀ buff metaBuff : Bytes,
      (∀ row ∈ (cstr buff).splitOn FDFS_RECORD_SEPERATOR, CompleteRow row) →
      let r := fdfsPackMetadata
        (fdfsSplitMetadataEx buff FDFS_RECORD_SEPERATOR FDFS_FIELD_SEPERATOR).1 metaBuff
      cstr r.1 = cstr buff ∧ r.2 = (cstr buff).length) := by
  refine ⟨fun l metaBuff hl h => ⟨fun j hj => ?_, ?_, ?_⟩, fun buff metaBuff h => ?_⟩
  · obtain ⟨h0, hlt⟩ := packStores_le hl j hj
    have hle := weight_records_le l
    have hsize : sizeofFDFSMetaData = 322 := rfl
    rw [hsize]
    omega
  · rw [cstr_fdfsPackMetadata hl, fdfsPackMetadata_eq hl]
  · rw [fdfsSplitMetadataEx_records, cstr_fdfsPackMetadata hl, records_packed hl h]
  · obtain ⟨hne, hpacked⟩ := packed_records (zero_notMem_cstr buff) h
    dsimp only
    rw [fdfsSplitMetadataEx_records, cstr_fdfsPackMetadata hne, fdfsPackMetadata_eq hne, hpacked]
    exact ⟨rfl, rfl⟩

/-- Two records, the second with a field separator in its value. -/
theorem split_undoes_pack_two :
    (fdfsSplitMetadataEx
      (fdfsPackMetadata [.cut (ascii "a") (ascii "1"), .cut (ascii "b") [2, 50]] []).1
      FDFS_RECORD_SEPERATOR FDFS_FIELD_SEPERATOR).1 =
        [.cut (ascii "a") (ascii "1"), .cut (ascii "b") [2, 50]] ∧
    cstr (fdfsPackMetadata (fdfsSplitMetadataEx [97, 2, 49, 1, 98, 2]
      FDFS_RECORD_SEPERATOR FDFS_FIELD_SEPERATOR).1 []).1 = [97, 2, 49, 1, 98, 2] := by
  constructor
  · refine (split_undoes_pack.1 _ [] (by decide) ?_).2.2
    rw [List.forall_mem_cons, List.forall_mem_singleton]
    exact ⟨by decide, by decide⟩
  · refine (split_undoes_pack.2 [97, 2, 49, 1, 98, 2] [] ?_).1
    have hrows : (cstr [97, 2, 49, 1, 98, 2]).splitOn FDFS_RECORD_SEPERATOR =
        [[97, 2, 49], [98, 2]] := by decide
    rw [hrows, List.forall_mem_cons, List.forall_mem_singleton]
    exact ⟨⟨[97], [49], rfl, by decide, by decide, by decide⟩,
      ⟨[98], [], rfl, by decide, by decide, by decide⟩⟩

end RoundTrip

section Sorting

/-- The indices at which `splitEx` puts a NUL, from a string that starts at `start`. -/
def splitStores (sep : Byte) : ℕ → Bytes → ℕ → List ℕ
  | 0, _, _ => []
  | k + 1, s, start => match strchr sep s with
    | none => []
    | some (row, rest) => (start + row.length) :: splitStores sep k rest (start + row.length + 1)

theorem splitStores_lt {sep : Byte} (hne : sep ≠ 0) {k : ℕ} {s : Bytes} {start : ℕ} :
    ∀ j ∈ splitStores sep k s start, j < start + (cstr s).length := by
  induction k generalizing s start with
  | zero => simp [splitStores]
  | succ k ih =>
    intro j hj
    rw [splitStores] at hj
    cases hs : strchr sep s with
    | none =>
      rw [hs] at hj
      cases hj
    | some f =>
      obtain ⟨hrow, h0, -⟩ := strchr_eq_some hs
      rw [hs] at hj
      rw [hrow, cstr_append_cons h0 hne, List.length_append, List.length_cons]
      rcases List.mem_cons.mp hj with rfl | hj
      · omega
      · have hlt := ih j hj
        omega

/-- The indices `storage_sort_metadata_buff` stores to in its buffer: those of the split, then
those of packing the sorted records. -/
def sortStores (q : MetaQsort) (mallocFails : Bool) (metaBuff : Bytes) : List ℤ :=
  if mallocFails then []
  else
    let r := fdfsSplitMetadataEx metaBuff FDFS_RECORD_SEPERATOR FDFS_FIELD_SEPERATOR
    (splitStores FDFS_RECORD_SEPERATOR (getOccurCount FDFS_RECORD_SEPERATOR metaBuff) metaBuff
      0).map Int.ofNat ++ packStores (q.sort r.1)

/-- Sorting a buffer in place: it stores up to the string's NUL only, and when it succeeds the
string is the records of the original in the order of their names, and no longer. -/
structure SortsInPlace (q : MetaQsort) (mallocFails : Bool) (metaBuff : Bytes) : Prop where
  stores : ∀ j ∈ sortStores q mallocFails metaBuff, 0 ≤ j ∧ j ≤ (cstr metaBuff).length
  sorted : (storageSortMetadataBuff q mallocFails metaBuff).1 = 0 →
    ∃ l : List FDFSMetaData, l.Perm (records (cstr metaBuff)) ∧
      (l.Pairwise fun a b => metadataCmpByName a b) ∧
      cstr (storageSortMetadataBuff q mallocFails metaBuff).2 = packed l
  length : (cstr (storageSortMetadataBuff q mallocFails metaBuff).2).length ≤
    (cstr metaBuff).length

variable {q : MetaQsort} {metaBuff : Bytes}

theorem sort_ne_nil {l : List FDFSMetaData} (h : l ≠ []) : q.sort l ≠ [] :=
  fun he => h (List.nil_perm.mp (he ▸ (q.perm l)))

/-- With a record the buffer ends up with the sorted records. -/
theorem cstr_storageSortMetadataBuff (h : records (cstr metaBuff) ≠ []) :
    cstr (storageSortMetadataBuff q false metaBuff).2 =
      packed (q.sort (records (cstr metaBuff))) := by
  rw [storageSortMetadataBuff, if_neg (by decide)]
  dsimp only
  rw [fdfsSplitMetadataEx_records, cstr_fdfsPackMetadata (sort_ne_nil h)]

theorem weight_sort (l : List FDFSMetaData) :
    weight ((q.sort l).map recordRow) = weight (l.map recordRow) :=
  weight_perm ((q.perm l).map recordRow)

theorem sortStores_eq (q : MetaQsort) (metaBuff : Bytes) : sortStores q false metaBuff =
    (splitStores FDFS_RECORD_SEPERATOR (getOccurCount FDFS_RECORD_SEPERATOR metaBuff) metaBuff
      0).map Int.ofNat ++ packStores (q.sort (records (cstr metaBuff))) := by
  rw [← fdfsSplitMetadataEx_records]
  rfl

/-- Without a record packing steps back over the start of the buffer. -/
theorem sortStores_underflow (h : records (cstr metaBuff) = []) :
    -1 ∈ sortStores q false metaBuff := by
  have hsort : q.sort [] = [] := List.perm_nil.mp (q.perm [])
  rw [sortStores_eq, h, hsort]
  exact List.mem_append_right _ (by decide)

theorem records_ne_nil_iff (text : Bytes) : records text ≠ [] ↔
    ∃ row ∈ text.splitOn FDFS_RECORD_SEPERATOR, FDFS_FIELD_SEPERATOR ∈ row := by
  rw [Ne, records, List.filterMap_eq_nil_iff]
  push Not
  refine exists_congr fun row => and_congr_right fun _ => ?_
  rw [rowRecord]
  split <;> simp_all

theorem sorts_in_place_iff (q : MetaQsort) (mallocFails : Bool) (metaBuff : Bytes) :
    SortsInPlace q mallocFails metaBuff ↔ mallocFails = true ∨
      ∃ row ∈ (cstr metaBuff).splitOn FDFS_RECORD_SEPERATOR, FDFS_FIELD_SEPERATOR ∈ row := by
  rw [← records_ne_nil_iff]
  cases mallocFails with
  | true =>
    have hENOMEM : ENOMEM ≠ 0 := by decide
    simp only [true_or, iff_true]
    exact ⟨fun j hj => absurd hj (by simp [sortStores]), fun h => absurd h hENOMEM, le_rfl⟩
  | false =>
    simp only [Bool.false_eq_true, false_or]
    constructor
    · intro hin hnil
      have hneg := (hin.stores (-1) (sortStores_underflow hnil)).1
      omega
    · intro hne
      have hsort := sort_ne_nil (q := q) hne
      have hle := weight_records_text_le (cstr metaBuff)
      refine ⟨fun j hj => ?_, fun _ => ?_, ?_⟩
      · rw [sortStores_eq] at hj
        rcases List.mem_append.mp hj with hj | hj
        · obtain ⟨i, hi, rfl⟩ := List.mem_map.mp hj
          have hlt := splitStores_lt (by decide) i hi
          rw [Int.ofNat_eq_natCast]
          omega
        · have hlt := packStores_le hsort j hj
          rw [weight_sort] at hlt
          omega
      · exact ⟨q.sort (records (cstr metaBuff)), q.perm _, q.sorted _,
          cstr_storageSortMetadataBuff hne⟩
      · have hlen := length_packed hsort
        rw [weight_sort] at hlen
        rw [cstr_storageSortMetadataBuff hne]
        omega

/-- A block of one row without a field separator. -/
theorem sort_underflows : ¬ SortsInPlace mergeQsort false (ascii "x" ++ [0]) := by
  intro hin
  have hneg := hin.stores (-1) (sortStores_underflow (by decide))
  omega

end Sorting

end DemoStorage.MetadataPacking
