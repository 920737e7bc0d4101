import DemoStorage.NumeralScans
import DemoStorage.RequestHandlers

/-!
# The length fields of a package

Three handlers take two lengths from the front of a package, each printed into a field of
nine bytes. They give `strtol` the package itself, terminated only at its end, where the
readers of a header put a NUL behind the field first. A length is the field's own exactly
when the number ends within the nine bytes or the package does.
-/

namespace DemoStorage.LengthFields
open ByteStrings NumeralScans PosixFileTree DaemonState RequestHandlers

/-- The length field at an index of a package. -/
def field (inBuff : Bytes) (i : ℕ) : Bytes := (inBuff.drop i).take TRACKER_PROTO_PKG_LEN_SIZE

/-- The `int` that `strtol` reads at an index of a package, which a NUL follows. -/
def decodedLength (inBuff : Bytes) (i : ℕ) : ℤ := wrap32 (strtol 16 ((inBuff ++ [0]).drop i))

section Handlers

/-- An upload decodes the length of its metadata and that of its content. -/
theorem parseUpload_eq (nInPackLen : ℤ) (inBuff : Bytes) : parseUpload nInPackLen inBuff =
    let metaBytes := decodedLength inBuff 0
    let fileBytes := decodedLength inBuff TRACKER_PROTO_PKG_LEN_SIZE
    if metaBytes < 0 then .error EINVAL
    else if fileBytes < 0 ∨ fileBytes ≠ wrap32 (nInPackLen - wrap32 (18 + metaBytes + 1)) then
      .error EINVAL
    else .ok {
      metaBytes := metaBytes.toNat
      metaBuff := ((inBuff ++ [0]).drop 18).take metaBytes.toNat
      content := ((inBuff ++ [0]).drop (18 + metaBytes.toNat + 1)).take fileBytes.toNat } := by
  simp only [parseUpload, decodedLength, List.drop_zero]

/-- A copy decodes the length of its name and that of its content. -/
theorem parseSyncCopy_eq (cfg : Config) (nInPackLen : ℤ) (inBuff : Bytes) :
    parseSyncCopy cfg nInPackLen inBuff =
    let filenameLen := decodedLength inBuff 0
    let fileBytes := decodedLength inBuff TRACKER_PROTO_PKG_LEN_SIZE
    if filenameLen ≤ 0 ∨ 128 ≤ filenameLen then .error EPIPE
    else if fileBytes < 0 then .error EPIPE
    else if cstr (((inBuff ++ [0]).drop 18).take 16) ≠ cfg.groupName then .error EINVAL
    else if fileBytes ≠ nInPackLen - (34 + filenameLen) then .error EPIPE
    else .ok {
      filename := cstr (((inBuff ++ [0]).drop 34).take filenameLen.toNat)
      content := ((inBuff ++ [0]).drop (34 + filenameLen.toNat)).take fileBytes.toNat } := by
  simp only [parseSyncCopy, decodedLength, List.drop_zero]

/-- `set_metadata` decodes the length of its name and that of its metadata. -/
theorem parseSetMetadata_eq (cfg : Config) (nInPackLen : ℤ) (inBuff : Bytes) :
    parseSetMetadata cfg nInPackLen inBuff =
    let filenameLen := decodedLength inBuff 0
    let metaBytes := decodedLength inBuff TRACKER_PROTO_PKG_LEN_SIZE
    let opFlag := ((inBuff ++ [0]).drop 18).headD 0
    if filenameLen ≤ 0 ∨ 32 ≤ filenameLen then .error EINVAL
    else if opFlag ≠ STORAGE_SET_METADATA_FLAG_OVERWRITE ∧
        opFlag ≠ STORAGE_SET_METADATA_FLAG_MERGE then .error EINVAL
    else if metaBytes < 0 ∨ metaBytes ≠ nInPackLen - (35 + filenameLen) then .error EINVAL
    else if cstr (((inBuff ++ [0]).drop 19).take 16) ≠ cfg.groupName then .error EINVAL
    else .ok {
      filename := cstr (((inBuff ++ [0]).drop 35).take filenameLen.toNat)
      opFlag := opFlag
      metaBuff := ((inBuff ++ [0]).drop (35 + filenameLen.toNat)).take metaBytes.toNat } := by
  simp only [parseSetMetadata, decodedLength, List.drop_zero]

end Handlers

section Independence

variable {p q : Bytes} {i : ℕ}

/-- What is decoded stands in the field and in what the package holds behind it. -/
theorem drop_eq_field (h : i + 9 ≤ p.length) :
    (p ++ [0]).drop i = field p i ++ (p.drop (i + 9) ++ [0]) := by
  have hdrop : (p ++ [0]).drop i = p.drop i ++ [0] := List.drop_append_of_le_length (by omega)
  rw [hdrop, field, TRACKER_PROTO_PKG_LEN_SIZE, ← List.append_assoc, ← List.drop_drop,
    List.take_append_drop]

/-- A field that is the end of its package is all that is decoded. -/
theorem decodedLength_of_end (hlen : q.length = p.length) (hp : p.length ≤ i + 9)
    (hfield : field q i = field p i) : decodedLength q i = decodedLength p i := by
  have hwhole {b : Bytes} (hb : b.length = p.length) : field b i = b.drop i := by
    refine List.take_of_length_le ?_
    simp only [List.length_drop, TRACKER_PROTO_PKG_LEN_SIZE]
    omega
  rw [hwhole hlen, hwhole rfl] at hfield
  rw [decodedLength, decodedLength, List.drop_append, List.drop_append, hfield, hlen]

/-- A number that ends within its field is decoded from the field alone. -/
theorem decodedLength_of_closed (hp : i + 9 ≤ p.length) (h : ¬ NumeralOpen (field p i)) :
    decodedLength p i = wrap32 (strtol 16 (field p i)) := by
  rw [decodedLength, drop_eq_field hp, strtol_append_of_not_open h]

/-- The package `p` with a digit and NULs for all that stands behind the field at `i`. -/
def follow (p : Bytes) (i : ℕ) (c : Byte) : Bytes :=
  p.take (i + 9) ++ c :: List.replicate (p.length - (i + 10)) 0

theorem length_follow (h : i + 9 < p.length) (c : Byte) : (follow p i c).length = p.length := by
  simp only [follow, List.length_append, List.length_take, List.length_cons, List.length_replicate]
  omega

theorem field_follow (h : i + 9 < p.length) (c : Byte) : field (follow p i c) i = field p i := by
  have hdrop : (follow p i c).drop i = (p.take (i + 9)).drop i ++
      c :: List.replicate (p.length - (i + 10)) 0 := by
    refine List.drop_append_of_le_length ?_
    rw [List.length_take]
    omega
  rw [field, hdrop, List.drop_take, Nat.add_sub_cancel_left]
  refine List.take_left' ?_
  simp only [List.length_take, List.length_drop, TRACKER_PROTO_PKG_LEN_SIZE]
  omega

theorem drop_follow (h : i + 9 < p.length) (c : Byte) : (follow p i c ++ [0]).drop i =
    field p i ++ c :: 0 :: List.replicate (p.length - (i + 10)) 0 := by
  have hlen := length_follow h c
  have htail : (follow p i c).drop (i + 9) = c :: List.replicate (p.length - (i + 10)) 0 :=
    List.drop_left' (by rw [List.length_take]; omega)
  rw [drop_eq_field (by omega), field_follow h, htail, List.cons_append, ← List.replicate_succ',
    List.replicate_succ]

/-- All packages of one length and with one field decode alike exactly when the number of the
field ends in it, or the package does. -/
theorem field_decides_iff (p : Bytes) (i : ℕ) :
    (∀ q : Bytes, q.length = p.length → field q i = field p i →
      decodedLength q i = decodedLength p i) ↔
    p.length ≤ i + 9 ∨ ¬ NumeralOpen (field p i) := by
  constructor
  · intro h
    by_contra hcond
    obtain ⟨hlen, hopen⟩ := not_or.mp hcond
    have hlt : i + 9 < p.length := by omega
    have hone := h _ (length_follow hlt 49) (field_follow hlt 49)
    have htwo := h _ (length_follow hlt 50) (field_follow hlt 50)
    rw [decodedLength, drop_follow hlt] at hone htwo
    exact wrap32_strtol_ne (not_not.mp hopen) (List.length_take_le _ _) _ _ (hone.trans htwo.symm)
  · rintro (hend | hclosed) q hlen hfield
    · exact decodedLength_of_end hlen hend hfield
    · rcases Nat.le_total p.length (i + 9) with hend | hlong
      · exact decodedLength_of_end hlen hend hfield
      · rw [decodedLength_of_closed hlong hclosed,
          decodedLength_of_closed (hlen ▸ hlong) (hfield ▸ hclosed), hfield]

end Independence

/-- Both lengths of every package of the three requests. -/
theorem length_fields_independent_iff (p : Bytes) :
    ((∀ q : Bytes, q.length = p.length → field q 0 = field p 0 →
        decodedLength q 0 = decodedLength p 0) ↔
      p.length ≤ 9 ∨ ¬ NumeralOpen (field p 0)) ∧
    ((∀ q : Bytes, q.length = p.length → field q 9 = field p 9 →
        decodedLength q 9 = decodedLength p 9) ↔
      p.length ≤ 18 ∨ ¬ NumeralOpen (field p 9)) :=
  ⟨by simpa using field_decides_iff p 0, field_decides_iff p 9⟩

/-- Two packages of a copy whose first field holds nine digits: the length decoded from it is
not the same when a blank and when a digit begins the second field. -/
theorem first_length_reads_second_field :
    ∃ p q : Bytes, p.length = 36 ∧ q.length = 36 ∧ field p 0 = field q 0 ∧
      decodedLength p 0 = 1 ∧ decodedLength q 0 = 16 := by
  refine ⟨ascii "000000001" ++ ascii " 1       " ++ List.replicate 18 0,
    ascii "000000001" ++ ascii "0 1      " ++ List.replicate 18 0, ?_⟩
  decide

end DemoStorage.LengthFields
