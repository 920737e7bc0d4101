import DemoStorage.LengthFields

/-!
# Accesses to a received package

A handler with a variable package allocates one byte more than the declared length, receives
into it and puts a NUL behind. Here a package is the memory it lies in, and a handler is the
indices it loads and stores, in the order of its statements. A copy takes its file name
before it knows that the package reaches so far; an upload receives as many bytes as a
pointer has, whatever length was declared.
-/

namespace DemoStorage.PackageBounds
open ByteStrings NumeralScans SocketTransfers PosixFileTree DaemonState RequestHandlers LengthFields

/-- The memory from the start of a package: the bytes received, the NUL at the declared
length, and whatever the heap holds. -/
def packageMemory (heap : ℕ → Byte) (n : ℕ) (received : Bytes) (i : ℕ) : Byte :=
  if i = n then 0 else (received[i]?).getD (heap i)

@[simp] theorem packageMemory_end (heap : ℕ → Byte) (n : ℕ) (received : Bytes) :
    packageMemory heap n received n = 0 := if_pos rfl

/-- The memory up to the NUL is the buffer that the handlers parse. -/
theorem slice_packageMemory (heap : ℕ → Byte) (n : ℕ) (received : Bytes) :
    slice (packageMemory heap n received) 0 (n + 1) = fillField n received heap ++ [0] := by
  have hbytes : (List.range' 0 n).map (packageMemory heap n received) =
      fillField n received heap := by
    refine List.ext_getElem (by simp) fun i h1 h2 => ?_
    have hi : i < n := by simpa using h1
    by_cases hr : i < received.length
    · simp [packageMemory, fillField, hi.ne, hr, hi]
    · have hlen : received.length ≤ i := Nat.le_of_not_lt hr
      have hmin : min n received.length = received.length := by omega
      simp [packageMemory, fillField, hi.ne, hr, List.getElem_append_right, hlen, hmin]
  rw [slice, Nat.sub_zero, List.range'_1_concat, List.map_append, hbytes]
  simp

/-- A number that starts inside the package is read inside it. -/
theorem scans_package_le {heap : ℕ → Byte} {n : ℕ} {received : Bytes} {i j : ℕ} (hi : i ≤ n)
    (h : scans (packageMemory heap n received) i j) : j ≤ n :=
  scans_le (packageMemory_end heap n received) hi h

section SyncCopy

/-- The lengths of a copy are in their ranges. -/
def copyLengthsOk (inBuff : Bytes) : Prop :=
  0 < decodedLength inBuff 0 ∧ decodedLength inBuff 0 < 128 ∧ 0 ≤ decodedLength inBuff 9

/-- The group name in a package is the server's. -/
def groupOk (cfg : Config) (inBuff : Bytes) (i : ℕ) : Prop :=
  cstr (((inBuff ++ [0]).drop i).take 16) = cfg.groupName

instance (inBuff : Bytes) : Decidable (copyLengthsOk inBuff) := inferInstanceAs (Decidable (_ ∧ _))

instance (cfg : Config) (inBuff : Bytes) (i : ℕ) : Decidable (groupOk cfg inBuff i) :=
  inferInstanceAs (Decidable (_ = _))

/-- The indices of the package that `storage_sync_copy_file` loads: both numbers, the group
name once the lengths are in range, the file name once the group name is right, and the
content once the lengths add up. -/
def syncCopyLoads (cfg : Config) (heap : ℕ → Byte) (inBuff : Bytes) (j : ℕ) : Prop :=
  let n := inBuff.length
  let mem := packageMemory heap n inBuff
  let filenameLen := decodedLength inBuff 0
  let fileBytes := decodedLength inBuff 9
  34 < n ∧ (scans mem 0 j ∨ scans mem 9 j ∨
    copyLengthsOk inBuff ∧ (18 ≤ j ∧ j < 34 ∨
      groupOk cfg inBuff 18 ∧ (34 ≤ j ∧ (j : ℤ) < 34 + filenameLen ∨
        fileBytes = n - (34 + filenameLen) ∧
          34 + filenameLen ≤ j ∧ (j : ℤ) < 34 + filenameLen + fileBytes)))

/-- A copy is accepted when its lengths are in range and add up and the group is right. -/
theorem parseSyncCopy_ok {cfg : Config} {n : ℤ} {inBuff : Bytes} {req : SyncCopyRequest}
    (h : parseSyncCopy cfg n inBuff = .ok req) : copyLengthsOk inBuff ∧ groupOk cfg inBuff 18 ∧
      34 + decodedLength inBuff 0 + decodedLength inBuff 9 = n := by
  have h9 : TRACKER_PROTO_PKG_LEN_SIZE = 9 := rfl
  rw [parseSyncCopy_eq] at h
  dsimp only at h
  split_ifs at h with h1 h2 h3 h4
  rw [h9] at h2 h4
  exact ⟨⟨by omega, by omega, by omega⟩, not_not.mp h3, by omega⟩

/-- A copy keeps to its package: it loads nothing behind the NUL, and what it accepts fills
the package exactly. -/
structure CopyInBounds (cfg : Config) (heap : ℕ → Byte) (inBuff : Bytes) : Prop where
  loads : ∀ j, syncCopyLoads cfg heap inBuff j → j ≤ inBuff.length
  accepted : ∀ req, parseSyncCopy cfg inBuff.length inBuff = .ok req →
    18 + 16 + decodedLength inBuff 0 + decodedLength inBuff 9 = inBuff.length ∧
      0 < decodedLength inBuff 0 ∧ decodedLength inBuff 0 < 128 ∧ 0 ≤ decodedLength inBuff 9

/-- The file name is taken before the length check, and the package ends before the name. -/
def CopyNameOverruns (cfg : Config) (inBuff : Bytes) : Prop :=
  34 < inBuff.length ∧ copyLengthsOk inBuff ∧ groupOk cfg inBuff 18 ∧
    (inBuff.length : ℤ) < 33 + decodedLength inBuff 0

/-- The last byte of a name that does not fit lies behind the NUL. -/
theorem CopyInBounds.name_fits {cfg : Config} {heap : ℕ → Byte} {inBuff : Bytes}
    (hin : CopyInBounds cfg heap inBuff) : ¬ CopyNameOverruns cfg inBuff := by
  rintro ⟨hlong, hlengths, hgroup, hover⟩
  have hpos := hlengths.1
  have hload : syncCopyLoads cfg heap inBuff (33 + (decodedLength inBuff 0).toNat) := by
    refine ⟨hlong, Or.inr (Or.inr ⟨hlengths, Or.inr ⟨hgroup, Or.inl ⟨?_, ?_⟩⟩⟩)⟩ <;> omega
  have hle := hin.loads _ hload
  omega

theorem copy_in_bounds_iff (cfg : Config) (heap : ℕ → Byte) (inBuff : Bytes) :
    CopyInBounds cfg heap inBuff ↔ ¬ CopyNameOverruns cfg inBuff := by
  refine ⟨CopyInBounds.name_fits, fun hname => ⟨?_, fun req h => ?_⟩⟩
  · rintro j ⟨hlong, hj | hj | ⟨hlengths, hj | ⟨hgroup, hj | hj⟩⟩⟩
    · exact scans_package_le (Nat.zero_le _) hj
    · exact scans_package_le (by omega) hj
    · omega
    · have hfits : ¬ (inBuff.length : ℤ) < 33 + decodedLength inBuff 0 :=
        fun hover => hname ⟨hlong, hlengths, hgroup, hover⟩
      omega
    · omega
  · obtain ⟨⟨hpos, hlt, hfile⟩, -, hsum⟩ := parseSyncCopy_ok h
    exact ⟨by omega, hpos, hlt, hfile⟩

/-- A package of 35 bytes whose name is to have 127. -/
theorem copy_name_overruns : ¬ CopyInBounds sampleConfig (fun _ => 0)
    (ascii "7f       0        g" ++ List.replicate 16 0) := by
  intro hin
  exact hin.name_fits ⟨by decide, by decide, by decide, by decide⟩

/-- The sibling `storage_set_metadata` takes its name only once the lengths add up. -/
def setMetadataLoads (cfg : Config) (heap : ℕ → Byte) (inBuff : Bytes) (j : ℕ) : Prop :=
  let n := inBuff.length
  let mem := packageMemory heap n inBuff
  let filenameLen := decodedLength inBuff 0
  let metaBytes := decodedLength inBuff 9
  let opFlag := ((inBuff ++ [0]).drop 18).headD 0
  35 < n ∧ (scans mem 0 j ∨ scans mem 9 j ∨ 0 < filenameLen ∧ filenameLen < 32 ∧ (j = 18 ∨
    (opFlag = STORAGE_SET_METADATA_FLAG_OVERWRITE ∨ opFlag = STORAGE_SET_METADATA_FLAG_MERGE) ∧
    0 ≤ metaBytes ∧ metaBytes = n - (35 + filenameLen) ∧ (19 ≤ j ∧ j < 35 ∨
      groupOk cfg inBuff 19 ∧ (35 ≤ j ∧ (j : ℤ) < 35 + filenameLen ∨
        35 + filenameLen ≤ j ∧ (j : ℤ) < 35 + filenameLen + metaBytes))))

theorem setMetadata_in_bounds (cfg : Config) (heap : ℕ → Byte) (inBuff : Bytes) :
    ∀ j, setMetadataLoads cfg heap inBuff j → j ≤ inBuff.length := by
  rintro j ⟨hlong, hj | hj | ⟨hpos, hlt, hj | ⟨hflag, hmeta, hsum, hj | ⟨hgroup, hj | hj⟩⟩⟩⟩
  · exact scans_package_le (Nat.zero_le _) hj
  · exact scans_package_le (by omega) hj
  all_goals omega

end SyncCopy

section Upload

/-- What `storage_upload_file` receives: as many bytes as a pointer has. -/
def uploadReceived (inb : Inbound) : Received := tcprecvdata inb sizeofPointer

/-- The upload goes on to `storage_save_file` with this request. -/
def UploadAccepted (env : RequestEnv) (n : ℤ) (inb : Inbound) (u : UploadRequest) : Prop :=
  (recvAllocated env 0 sizeofPointer n inb).2.bind
    (fun data => parseUpload n (uploadBuffer env n data)) = .ok u

/-- The two lengths of an upload, decoded from its buffer. -/
def uploadLength (env : RequestEnv) (n : ℤ) (inb : Inbound) (i : ℕ) : ℤ :=
  decodedLength (uploadBuffer env n (uploadReceived inb).data) i

/-- The indices of the package that an upload stores to: the bytes received, then the NUL
behind the package and the one behind the metadata. -/
def uploadStores (env : RequestEnv) (n : ℤ) (inb : Inbound) (j : ℤ) : Prop :=
  env.mallocFails = false ∧ 0 ≤ j ∧ (j < (uploadReceived inb).data.length ∨
    (uploadReceived inb).result = 1 ∧ (j = n ∨
      ∃ u, UploadAccepted env n inb u ∧ j = 18 + uploadLength env n inb 0))

/-- The indices of the package that an upload loads: both numbers, then the metadata and the
content once it is accepted. -/
def uploadLoads (env : RequestEnv) (n : ℤ) (inb : Inbound) (j : ℕ) : Prop :=
  let r := uploadReceived inb
  let mem := packageMemory env.heap n.toNat r.data
  let metaBytes := uploadLength env n inb 0
  env.mallocFails = false ∧ r.result = 1 ∧ (scans mem 0 j ∨ scans mem 9 j ∨
    ∃ u, UploadAccepted env n inb u ∧ (18 ≤ j ∧ (j : ℤ) < 18 + metaBytes ∨
      18 + metaBytes + 1 ≤ j ∧ (j : ℤ) < 18 + metaBytes + 1 + uploadLength env n inb 9))

/-- An upload keeps to its package: it stores between its start and the NUL, it loads what was
received or the NUL, and what it accepts fills the package exactly. -/
structure UploadInBounds (env : RequestEnv) (n : ℤ) (inb : Inbound) : Prop where
  stores : ∀ j, uploadStores env n inb j → 0 ≤ j ∧ j ≤ n
  loads : ∀ j, uploadLoads env n inb j → j < (uploadReceived inb).data.length ∨ (j : ℤ) = n
  accepted : ∀ u, UploadAccepted env n inb u →
    0 ≤ uploadLength env n inb 0 ∧ 0 ≤ uploadLength env n inb 9 ∧
      2 * 9 + uploadLength env n inb 0 + 1 + uploadLength env n inb 9 = n

/-- The cases in which eight bytes do for an upload: no memory, a peer that sends fewer of
them than the package holds, or a package of nine in which they end the first number. -/
def EightBytesDo (env : RequestEnv) (n : ℤ) (inb : Inbound) : Prop :=
  env.mallocFails = true ∨
    (uploadReceived inb).result ≠ 1 ∧ ((uploadReceived inb).data.length : ℤ) ≤ n + 1 ∨
    (uploadReceived inb).result = 1 ∧ n = 9 ∧ ¬ NumeralOpen (uploadReceived inb).data

theorem length_uploadReceived (inb : Inbound) : (uploadReceived inb).data.length ≤ 8 ∧
    ((uploadReceived inb).result = 1 → (uploadReceived inb).data.length = 8) :=
  recvLoop_length inb.events inb.pending 8

/-- An accepted upload was received completely, and its metadata has a length. -/
theorem uploadAccepted_cases {env : RequestEnv} {n : ℤ} {inb : Inbound} {u : UploadRequest}
    (h : UploadAccepted env n inb u) : env.mallocFails = false ∧ (uploadReceived inb).result = 1 ∧
      0 ≤ uploadLength env n inb 0 ∧ 0 ≤ uploadLength env n inb 9 ∧
      uploadLength env n inb 9 = wrap32 (n - wrap32 (18 + uploadLength env n inb 0 + 1)) := by
  have h9 : TRACKER_PROTO_PKG_LEN_SIZE = 9 := rfl
  unfold UploadAccepted recvAllocated receive at h
  split_ifs at h with hn hmalloc
  · cases h
  · cases h
  · dsimp only at h
    split_ifs at h with hr
    · cases h
    · change parseUpload n (uploadBuffer env n (uploadReceived inb).data) = .ok u at h
      rw [parseUpload_eq, h9] at h
      dsimp only at h
      split_ifs at h with h1 h2
      obtain ⟨hfile, hsum⟩ := not_or.mp h2
      exact ⟨by simpa using hmalloc, not_not.mp hr, not_lt.mp h1, not_lt.mp hfile, not_not.mp hsum⟩

/-- The memory an upload parses begins with the bytes received, if there is room for them. -/
theorem slice_received {heap : ℕ → Byte} {n : ℕ} {received : Bytes} (h : received.length ≤ n) :
    slice (packageMemory heap n received) 0 received.length = received := by
  refine List.ext_getElem (by simp [slice]) fun i h1 h2 => ?_
  have hi : i ≠ n := by omega
  simp [slice, packageMemory, hi, h2]

/-- In a package of nine bytes the second number is the NUL behind it. -/
theorem uploadLength_end {env : RequestEnv} {inb : Inbound} : uploadLength env 9 inb 9 = 0 := by
  have hdrop : (uploadBuffer env 9 (uploadReceived inb).data ++ [0]).drop 9 = [0] :=
    List.drop_left' (length_fillField _ _ _)
  rw [uploadLength, decodedLength, hdrop]
  decide

theorem UploadInBounds.eightBytesDo {env : RequestEnv} {n : ℤ} {inb : Inbound} (hn : 0 < n)
    (hin : UploadInBounds env n inb) : EightBytesDo env n inb := by
  by_cases hm : env.mallocFails = true
  · exact Or.inl hm
  have hm : env.mallocFails = false := by simpa using hm
  by_cases hr : (uploadReceived inb).result = 1
  · -- the second number starts at index 9, behind the bytes received
    have h9 := hin.loads 9 ⟨hm, hr, Or.inr (Or.inl (scans_self _ _))⟩
    have hlen := (length_uploadReceived inb).2 hr
    have hnine : n = 9 := by omega
    refine Or.inr (Or.inr ⟨hr, hnine, fun hopen => ?_⟩)
    have h8 : scans (packageMemory env.heap n.toNat (uploadReceived inb).data) 0 8 := by
      refine ⟨Nat.zero_le _, ?_⟩
      rw [← hlen, slice_received (by omega)]
      exact hopen
    have hin8 := hin.loads 8 ⟨hm, hr, Or.inl h8⟩
    omega
  · refine Or.inr (Or.inl ⟨hr, ?_⟩)
    by_contra hlong
    have hlast := hin.stores (n + 1) ⟨hm, by omega, Or.inl (by omega)⟩
    omega

/-- Nine bytes leave no room for the two length fields. -/
theorem not_uploadAccepted_nine (env : RequestEnv) (inb : Inbound) (u : UploadRequest) :
    ¬ UploadAccepted env 9 inb u := by
  intro hu
  obtain ⟨-, -, hmeta, -, hsum⟩ := uploadAccepted_cases hu
  have hlt : uploadLength env 9 inb 0 < 2147483648 := wrap32_lt _
  rw [uploadLength_end] at hsum
  unfold wrap32 at hsum
  omega

theorem upload_in_bounds_iff (env : RequestEnv) (n : ℤ) (inb : Inbound) (hn : 0 < n) :
    UploadInBounds env n inb ↔ EightBytesDo env n inb := by
  refine ⟨UploadInBounds.eightBytesDo hn, ?_⟩
  rintro (hm | ⟨hr, hlen⟩ | ⟨hr, rfl, hclosed⟩)
  · refine ⟨fun j hj => ?_, fun j hj => ?_, fun u hu => ?_⟩
    · exact absurd hm (by simp [hj.1])
    · exact absurd hm (by simp [hj.1])
    · exact absurd hm (by simp [(uploadAccepted_cases hu).1])
  · refine ⟨?_, fun j hj => absurd hj.2.1 hr,
      fun u hu => absurd (uploadAccepted_cases hu).2.1 hr⟩
    rintro j ⟨-, hpos, hj | ⟨hone, -⟩⟩
    · omega
    · exact absurd hone hr
  · have hrefused := not_uploadAccepted_nine env inb
    have hlen := (length_uploadReceived inb).2 hr
    have htoNat : (9 : ℤ).toNat = 9 := rfl
    refine ⟨?_, ?_, fun u hu => absurd hu (hrefused u)⟩
    · rintro j ⟨-, hpos, hj | ⟨-, rfl | ⟨u, hu, -⟩⟩⟩
      · omega
      · omega
      · exact absurd hu (hrefused u)
    · rintro j ⟨-, -, hj | hj | ⟨u, hu, -⟩⟩
      · have hle := scans_package_le (Nat.zero_le _) hj
        by_cases h8 : j = 8
        · have hopen := hj.2
          rw [h8, ← hlen, slice_received (by omega)] at hopen
          exact absurd hopen hclosed
        · omega
      · have hle := scans_package_le (by decide) hj
        have hge := hj.1
        omega
      · exact absurd hu (hrefused u)

/-- A package of nine bytes whose first number ends at its second byte. -/
theorem upload_in_bounds_nine : UploadInBounds {} 9 ⟨ascii "0 0      ", []⟩ :=
  (upload_in_bounds_iff {} 9 ⟨ascii "0 0      ", []⟩ (by decide)).mpr
    (Or.inr (Or.inr ⟨by decide, rfl, by decide⟩))

/-- An upload of two bytes without metadata, as a client sends it. -/
theorem upload_reads_unreceived :
    ¬ UploadInBounds {} 21 ⟨ascii "0" ++ 0 :: ascii "       2" ++ 0 :: ascii "       " ++
      0 :: ascii "hi", []⟩ := by
  intro hin
  rcases hin.eightBytesDo (by decide) with hm | ⟨hr, -⟩ | ⟨-, hn, -⟩
  · cases hm
  · exact hr (by decide)
  · cases hn

end Upload

end DemoStorage.PackageBounds
