import DemoStorage.PosixFileTree
import Mathlib.Data.List.Sort

/-!
# Metadata records

A metadata block is a C string of rows separated by `FDFS_RECORD_SEPERATOR`; a row with a
`FDFS_FIELD_SEPERATOR` is a record, its name cut to 64 and its value to 256 bytes. The
splitting functions work in place: a buffer is the whole list of bytes behind a pointer,
and cutting a row out of it overwrites the separator with a NUL.
-/

namespace DemoStorage.MetadataRecords
open ByteStrings PosixFileTree

def FDFS_RECORD_SEPERATOR : Byte := 1
def FDFS_FIELD_SEPERATOR : Byte := 2
def FDFS_MAX_META_NAME_LEN : ℕ := 64
def FDFS_MAX_META_VALUE_LEN : ℕ := 256

structure FDFSMetaData where
  name : Bytes
  value : Bytes
  name_cstr : 0 ∉ name
  value_cstr : 0 ∉ value
  name_length : name.length ≤ FDFS_MAX_META_NAME_LEN
  value_length : value.length ≤ FDFS_MAX_META_VALUE_LEN
  deriving DecidableEq

/-- A record with both fields cut to their arrays. -/
def FDFSMetaData.cut (name value : Bytes) : FDFSMetaData where
  name := (cstr name).take FDFS_MAX_META_NAME_LEN
  value := (cstr value).take FDFS_MAX_META_VALUE_LEN
  name_cstr h := zero_notMem_cstr name (List.mem_of_mem_take h)
  value_cstr h := zero_notMem_cstr value (List.mem_of_mem_take h)
  name_length := List.length_take_le _ _
  value_length := List.length_take_le _ _

/-- `strcmp` of the names is not positive. -/
def metadataCmpByName (a b : FDFSMetaData) : Bool := a.name ≤ b.name

/-- The C library's `qsort` on metadata: some sorted permutation. -/
structure MetaQsort where
  sort : List FDFSMetaData → List FDFSMetaData
  perm : ∀ l, (sort l).Perm l
  sorted : ∀ l, (sort l).Pairwise fun a b => metadataCmpByName a b

/-- Bytes before and after the first occurrence in a C string. -/
def strchr (c : Byte) : Bytes → Option (Bytes × Bytes)
  | [] => none
  | x :: s =>
    if x = 0 then none
    else if x = c then some ([], s)
    else (strchr c s).map fun r => (x :: r.1, r.2)

theorem strchr_append {c : Byte} {a : Bytes} (h0 : 0 ∉ a) (hc : c ∉ a) (hne : c ≠ 0) (b : Bytes) :
    strchr c (a ++ c :: b) = some (a, b) := by
  induction a with
  | nil => simp [strchr, hne]
  | cons x a ih =>
    obtain ⟨hx0, h0⟩ : 0 ≠ x ∧ 0 ∉ a := by simpa using h0
    obtain ⟨hxc, hc⟩ : c ≠ x ∧ c ∉ a := by simpa using hc
    rw [List.cons_append, strchr, if_neg (Ne.symm hx0), if_neg (Ne.symm hxc), ih h0 hc]
    rfl

/-- A found separator, and that there is none before it. -/
theorem strchr_eq_some {c : Byte} {s : Bytes} {f : Bytes × Bytes} (h : strchr c s = some f) :
    s = f.1 ++ c :: f.2 ∧ 0 ∉ f.1 ∧ c ∉ f.1 := by
  induction s generalizing f with
  | nil => cases h
  | cons x s ih =>
    rw [strchr] at h
    split_ifs at h with h0 hx
    · obtain rfl := Option.some.inj h
      simp [hx]
    · obtain ⟨g, hg, rfl⟩ := Option.map_eq_some_iff.mp h
      obtain ⟨hs, hz, hc⟩ := ih hg
      refine ⟨congrArg (x :: ·) hs, ?_, ?_⟩
      · exact fun hm => (List.mem_cons.mp hm).elim (fun he => h0 he.symm) hz
      · exact fun hm => (List.mem_cons.mp hm).elim (fun he => hx he.symm) hc

theorem strchr_eq_none {c : Byte} {s : Bytes} (h : strchr c s = none) : c ∉ cstr s := by
  induction s with
  | nil => simp
  | cons x s ih =>
    rw [strchr] at h
    split_ifs at h with h0 hx
    · simp [cstr, h0]
    · have hm : c ∉ cstr s := ih (by simpa using h)
      have hxc : c ≠ x := fun he => hx he.symm
      simp [cstr, h0, hm, hxc]

def getOccurCount (c : Byte) : Bytes → ℕ
  | [] => 0
  | x :: s => if x = 0 then 0 else if x = c then getOccurCount c s + 1 else getOccurCount c s

/-- Columns of the buffer with `k` cuts left, and the buffer after the cuts. -/
def splitCols (sep : Byte) : ℕ → Bytes → List Bytes × Bytes
  | 0, s => ([cstr s], s)
  | k + 1, s => match strchr sep s with
    | none => ([cstr s], s)
    | some (row, rest) =>
      let r := splitCols sep k rest
      (row :: r.1, row ++ 0 :: r.2)

def splitEx (src : Bytes) (seperator : Byte) (nMaxCols : ℤ) : List Bytes × Bytes :=
  if nMaxCols ≤ 0 then ([], src) else splitCols seperator (nMaxCols.toNat - 1) src

def fdfsSplitMetadataEx (metaBuff : Bytes) (recordSeperator filedSeperator : Byte) :
    List FDFSMetaData × Bytes :=
  let rows := splitEx metaBuff recordSeperator (getOccurCount recordSeperator metaBuff + 1)
  (rows.1.filterMap fun row => (strchr filedSeperator row).map fun f => .cut f.1 f.2, rows.2)

def packedRecord (m : FDFSMetaData) : Bytes :=
  m.name ++ FDFS_FIELD_SEPERATOR :: (m.value ++ [FDFS_RECORD_SEPERATOR])

/-- The buffer after packing in place and the reported length. The last record separator
becomes the terminator; with no record at all the byte before the buffer is cleared and
the length is -1. -/
def fdfsPackMetadata (metaList : List FDFSMetaData) (metaBuff : Bytes) : Bytes × ℤ :=
  let text := metaList.flatMap packedRecord
  (if text = [] then metaBuff else text.dropLast ++ 0 :: metaBuff.drop text.length,
    (text.length : ℤ) - 1)

/-- Result and buffer; `mallocFails` is the failure of either allocation of the split. -/
def storageSortMetadataBuff (q : MetaQsort) (mallocFails : Bool) (metaBuff : Bytes) :
    Errno × Bytes :=
  if mallocFails then (ENOMEM, metaBuff)
  else
    let r := fdfsSplitMetadataEx metaBuff FDFS_RECORD_SEPERATOR FDFS_FIELD_SEPERATOR
    (0, (fdfsPackMetadata (q.sort r.1) r.2).1)

theorem metadataCmpByName_trans (a b c : FDFSMetaData) :
    metadataCmpByName a b → metadataCmpByName b c → metadataCmpByName a c := by
  simpa [metadataCmpByName] using fun h h' => List.le_trans h h'

theorem metadataCmpByName_total (a b : FDFSMetaData) :
    metadataCmpByName a b || metadataCmpByName b a := by
  simpa [metadataCmpByName] using List.le_total a.name b.name

/-- Merge sort meets what is asked of `qsort`. -/
def mergeQsort : MetaQsort where
  sort l := l.mergeSort metadataCmpByName
  perm l := List.mergeSort_perm l _
  sorted l := List.pairwise_mergeSort metadataCmpByName_trans metadataCmpByName_total l

end DemoStorage.MetadataRecords
