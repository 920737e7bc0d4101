import DemoStorage.PathConfinement
import DemoStorage.IniFiles

/-!
# The arrays that paths are formatted into

Each handler puts the base path, `/data/` and the requested name into an array of its own.
Four of them leave room for the longest base path and the longest name they accept. The array
of a copy has the room of a base path alone and is cut by `snprintf`; that of `set_metadata`
forgets the directory between the two.
-/

namespace DemoStorage.PathArrays
open ByteStrings PosixFileTree SocketTransfers DaemonState RequestHandlers ServiceThread
open ConnectionFraming PathConfinement IniFiles

section BasePath

/-- A slash at the end of a path is removed. -/
def chopPath (filePath : Bytes) : Bytes :=
  if filePath.getLast? = some LexicalPaths.slash then filePath.dropLast else filePath

/-- The part of `storage_load_from_conf_file` that installs `g_base_path`. -/
def loadBasePath (items : List IniItemInfo) (errno : Errno) (w : World) : Except Errno Bytes :=
  match iniGetStrValue (ascii "base_path") items with
  | none => .error ENOENT
  | some value =>
    let basePath := chopPath (cutPath value)
    if !w.tree.access w.cwd basePath then .error (errnoOr errno ENOENT)
    else match w.locate basePath with
      | .ok l => if w.tree.isDir l then .ok basePath else .error ENOTDIR
      | .error _ => .error ENOTDIR

theorem length_chopPath_le (filePath : Bytes) : (chopPath filePath).length ≤ filePath.length := by
  unfold chopPath
  split
  · simp
  · exact le_rfl

theorem length_iniGetStrValue_le {szName value : Bytes} {items : List IniItemInfo}
    (h : iniGetStrValue szName items = some value) : value.length ≤ INI_ITEM_VALUE_LEN := by
  obtain ⟨i, -, rfl⟩ := Option.map_eq_some_iff.mp h
  exact i.value_length

/-- An installed base path is no longer than a value of the configuration file. -/
theorem length_loadBasePath_le {items : List IniItemInfo} {errno : Errno} {w : World}
    {basePath : Bytes} (h : loadBasePath items errno w = .ok basePath) : basePath.length ≤ 128 := by
  unfold loadBasePath at h
  cases hv : iniGetStrValue (ascii "base_path") items with
  | none =>
    rw [hv] at h
    cases h
  | some value =>
    have hvalue := length_iniGetStrValue_le hv
    have hchop := length_chopPath_le (cutPath value)
    have hcut : (cutPath value).length ≤ value.length := by
      rw [cutPath, List.length_take]
      exact min_le_right _ _
    have hbase : basePath = chopPath (cutPath value) := by
      rw [hv] at h
      dsimp only at h
      split at h
      · cases h
      · split at h
        · split at h
          · exact (Except.ok.inj h).symm
          · cases h
        · cases h
    rw [hbase]
    exact hchop.trans (hcut.trans hvalue)

end BasePath

section Names
variable {cfg : Config} {env : RequestEnv} {cmd : Byte} {n : ℤ} {inb : Inbound} {filename : Bytes}

/-- The file name of a request that passes the checks on its body. -/
def acceptedName (cfg : Config) (env : RequestEnv) (cmd : Byte) (n : ℤ) (inb : Inbound) :
    Except Errno Bytes :=
  (receiveBody env cmd n inb).2.bind fun data =>
    if isSyncCopy cmd then (parseSyncCopy cfg n data).map SyncCopyRequest.filename
    else if cmd = STORAGE_PROTO_CMD_SET_METADATA then
      (parseSetMetadata cfg n data).map SetMetadataRequest.filename
    else groupFilename cfg EINVAL data

theorem acceptedName_eq (hs : ¬ isSyncCopy cmd) :
    acceptedName cfg env cmd n inb = requestName cfg env cmd n inb := by
  simp only [acceptedName, requestName, hs, if_false]

/-- A received body has the length asked for. -/
theorem receive_length {size : ℤ} {data : Bytes} (h : (receive env inb size).2 = .ok data) :
    data.length = size.toNat := by
  unfold receive at h
  dsimp only at h
  split_ifs at h with hr
  · obtain rfl := Except.ok.inj h
    exact (recvLoop_length inb.events inb.pending size.toNat).2 (not_not.mp hr)

theorem recvGroupRequest_length_lt {data : Bytes}
    (h : (recvGroupRequest env n inb).2 = .ok data) : data.length < 48 := by
  have hsize : sizeofInBuff = 48 := rfl
  unfold recvGroupRequest at h
  split at h
  · cases h
  · split at h
    · cases h
    · have hlen := receive_length h
      omega

theorem length_groupFilename_le {mismatch : Errno} {data : Bytes} (hlen : data.length < 48)
    (h : groupFilename cfg mismatch data = .ok filename) : filename.length ≤ 31 := by
  have hgroup : FDFS_GROUP_NAME_MAX_LEN.toNat = 16 := rfl
  unfold groupFilename at h
  split at h
  · cases h
  · obtain rfl := Except.ok.inj h
    have hcstr := length_cstr_le (data.drop FDFS_GROUP_NAME_MAX_LEN.toNat)
    rw [List.length_drop, hgroup] at hcstr
    rw [hgroup]
    omega

theorem length_parseSetMetadata_le {data : Bytes} {req : SetMetadataRequest}
    (h : parseSetMetadata cfg n data = .ok req) : req.filename.length ≤ 31 := by
  unfold parseSetMetadata at h
  dsimp only at h
  split_ifs at h with h1
  obtain rfl := Except.ok.inj h
  refine (length_cstr_le _).trans ((List.length_take_le _ _).trans ?_)
  omega

/-- Only a copy accepts a name of more than 31 bytes. -/
theorem length_acceptedName_le (hu : cmd ≠ STORAGE_PROTO_CMD_UPLOAD_FILE) (hs : ¬ isSyncCopy cmd)
    (h : acceptedName cfg env cmd n inb = .ok filename) : filename.length ≤ 31 := by
  unfold acceptedName at h
  cases hr : (receiveBody env cmd n inb).2 with
  | error e =>
    rw [hr] at h
    cases h
  | ok data =>
    rw [hr] at h
    simp only [Except.bind, hs, if_false] at h
    split_ifs at h with hm
    · cases hp : parseSetMetadata cfg n data with
      | error e =>
        rw [hp] at h
        cases h
      | ok req =>
        rw [hp] at h
        obtain rfl := Except.ok.inj h
        exact length_parseSetMetadata_le hp
    · simp only [receiveBody, hu, hs, hm, if_false] at hr
      exact length_groupFilename_le (recvGroupRequest_length_lt hr) h

theorem length_dataPath (cfg : Config) (name : Bytes) :
    (dataPath cfg name).length = cfg.basePath.length + 6 + name.length := by
  rw [dataPath, List.length_append, List.length_append]
  rfl

theorem length_meta (p : Bytes) : (p ++ STORAGE_META_FILE_EXT).length = p.length + 2 :=
  List.length_append

end Names

section Arrays

/-- `sizeof(full_filename)` of the handler of a command: 48 is the size of `in_buff`, and 3 that
of the extension with its NUL. -/
def fullFilenameSize (cmd : Byte) : ℕ :=
  if cmd = STORAGE_PROTO_CMD_DOWNLOAD_FILE then MAX_PATH_SIZE + 48 + 16
  else if cmd = STORAGE_PROTO_CMD_GET_METADATA then MAX_PATH_SIZE + 48 + 32
  else if cmd = STORAGE_PROTO_CMD_DELETE_FILE then MAX_PATH_SIZE + 48
  else if cmd = STORAGE_PROTO_CMD_SYNC_DELETE_FILE then MAX_PATH_SIZE + 48
  else if cmd = STORAGE_PROTO_CMD_SET_METADATA then MAX_PATH_SIZE + 32 + 3
  else MAX_PATH_SIZE

/-- What the handler of a command formats for a name, each string with the size of its array:
the path, the path of the metadata file, and the name the metadata is logged with. The path is
extended in `set_metadata` once the file is found. -/
def formatted (cfg : Config) (cmd : Byte) (w : World) (filename : Bytes) : List (ℕ × Bytes) :=
  let full := dataPath cfg filename
  let metaName := filename ++ STORAGE_META_FILE_EXT
  let size := fullFilenameSize cmd
  (size, full) ::
    if cmd = STORAGE_PROTO_CMD_GET_METADATA then [(size, full ++ STORAGE_META_FILE_EXT)]
    else if cmd = STORAGE_PROTO_CMD_DELETE_FILE then
      [(MAX_PATH_SIZE + 48, full ++ STORAGE_META_FILE_EXT), (MAX_PATH_SIZE + 48, metaName)]
    else if cmd = STORAGE_PROTO_CMD_SET_METADATA ∧ w.tree.access w.cwd full then
      [(32 + 3, metaName), (size, full ++ STORAGE_META_FILE_EXT)]
    else []

/-- A request whose paths are whole: what its handler passes to the file system is the path of
the name first, then only that, the path of its metadata file or a path of the log; and every
string it formats fits its array together with the NUL. -/
structure PathsWhole (cfg : Config) (cmd : Byte) (filename : Bytes) (w v : World) : Prop where
  passed : Touches (fun p => p = dataPath cfg filename ∨
    p = dataPath cfg filename ++ STORAGE_META_FILE_EXT ∨ LogPath cfg p)
    (w.touch (dataPath cfg filename)) v
  fits : ∀ x ∈ formatted cfg cmd w filename, x.2.length < x.1

/-- Base path and name leave room for each other: in the 256 bytes of a copy, and in the 291 of
`set_metadata` together with the extension once the file is found. -/
def LeavesRoom (cfg : Config) (cmd : Byte) (w : World) (filename : Bytes) : Prop :=
  (isSyncCopy cmd → cfg.basePath.length + 6 + filename.length < 256) ∧
    (cmd = STORAGE_PROTO_CMD_SET_METADATA → cfg.basePath.length + 6 + filename.length +
      (if w.tree.access w.cwd (dataPath cfg filename) then 2 else 0) < 291)

variable {cfg : Config} {env : RequestEnv} {cmd : Byte} {n : ℤ} {inb : Inbound} {filename : Bytes}
variable {w v : World}

theorem PathsWhole.leavesRoom (h : PathsWhole cfg cmd filename w v) :
    LeavesRoom cfg cmd w filename := by
  have hfull := h.fits (fullFilenameSize cmd, dataPath cfg filename) List.mem_cons_self
  dsimp only at hfull
  rw [length_dataPath] at hfull
  refine ⟨fun hs => ?_, fun hc => ?_⟩
  · have hsize : fullFilenameSize cmd = 256 := by
      obtain rfl | rfl := hs <;> rfl
    omega
  · subst hc
    have hsize : fullFilenameSize STORAGE_PROTO_CMD_SET_METADATA = 291 := rfl
    split
    · rename_i hx
      have hmeta := h.fits (291, dataPath cfg filename ++ STORAGE_META_FILE_EXT) (by
        refine List.mem_cons_of_mem _ ?_
        rw [if_neg (by decide), if_neg (by decide), if_pos ⟨rfl, hx⟩]
        exact List.mem_cons_of_mem _ List.mem_cons_self)
      dsimp only at hmeta
      rw [length_meta, length_dataPath] at hmeta
      omega
    · omega

/-- The strings of every handler but two fit for any base path and any name. -/
theorem formatted_fits {f : ℤ → Inbound → Outbound → World → Handled}
    (hf : handler cfg env cmd = some f) (hlen : ¬ isSyncCopy cmd → filename.length ≤ 31)
    (hu : cmd ≠ STORAGE_PROTO_CMD_UPLOAD_FILE)
    (h : LeavesRoom cfg cmd w filename) :
    ∀ x ∈ formatted cfg cmd w filename, x.2.length < x.1 := by
  have hbase : cfg.basePath.length < 256 := cfg.basePath_length
  have hfull := length_dataPath cfg filename
  have hmeta := length_meta (dataPath cfg filename)
  have hname := length_meta filename
  cases handles_of_handler hf with
  | downloadFile =>
    have hlen := hlen (by decide)
    have hpath : (dataPath cfg filename).length < 320 := by omega
    exact List.forall_mem_singleton.mpr hpath
  | getMetadata =>
    have hlen := hlen (by decide)
    have hpath : (dataPath cfg filename).length < 336 := by omega
    have hext : (dataPath cfg filename ++ STORAGE_META_FILE_EXT).length < 336 := by omega
    exact List.forall_mem_cons.mpr ⟨hpath, List.forall_mem_singleton.mpr hext⟩
  | uploadFile => exact absurd rfl hu
  | deleteFile =>
    have hlen := hlen (by decide)
    have hpath : (dataPath cfg filename).length < 304 := by omega
    have hext : (dataPath cfg filename ++ STORAGE_META_FILE_EXT).length < 304 := by omega
    have hlog : (filename ++ STORAGE_META_FILE_EXT).length < 304 := by omega
    refine List.forall_mem_cons.mpr ⟨hpath, List.forall_mem_cons.mpr ⟨hext, ?_⟩⟩
    exact List.forall_mem_singleton.mpr hlog
  | syncCreateFile =>
    have hroom := h.1 (.inl rfl)
    have hpath : (dataPath cfg filename).length < 256 := by omega
    exact List.forall_mem_singleton.mpr hpath
  | syncDeleteFile =>
    have hlen := hlen (by decide)
    have hpath : (dataPath cfg filename).length < 304 := by omega
    exact List.forall_mem_singleton.mpr hpath
  | syncUpdateFile =>
    have hroom := h.1 (.inr rfl)
    have hpath : (dataPath cfg filename).length < 256 := by omega
    exact List.forall_mem_singleton.mpr hpath
  | setMetadata =>
    have hlen := hlen (by decide)
    have hroom := h.2 rfl
    have hpath : (dataPath cfg filename).length < 291 := by omega
    refine List.forall_mem_cons.mpr ⟨hpath, ?_⟩
    rw [if_neg (by decide), if_neg (by decide)]
    split
    · rename_i hx
      rw [if_pos hx.2] at hroom
      have hlog : (filename ++ STORAGE_META_FILE_EXT).length < 35 := by omega
      have hext : (dataPath cfg filename ++ STORAGE_META_FILE_EXT).length < 291 := by omega
      exact List.forall_mem_cons.mpr ⟨hlog, List.forall_mem_singleton.mpr hext⟩
    · simp

theorem copyFile_accepted (hs : isSyncCopy cmd)
    (h : acceptedName cfg env cmd n inb = .ok filename) :
    ∃ r, (recvAllocated env 34 n n inb).2.bind (parseSyncCopy cfg n) = .ok r ∧
      filename = r.filename := by
  have hu : cmd ≠ STORAGE_PROTO_CMD_UPLOAD_FILE := by
    rintro rfl
    exact absurd hs (by decide)
  simp only [acceptedName, receiveBody, hu, hs, if_true, if_false] at h
  exact bind_map_ok h

/-- A handler passes whole paths where a copy leaves room for them. -/
theorem handler_passes {f : ℤ → Inbound → Outbound → World → Handled}
    (hf : handler cfg env cmd = some f) (hu : cmd ≠ STORAGE_PROTO_CMD_UPLOAD_FILE)
    (hname : acceptedName cfg env cmd n inb = .ok filename)
    (hroom : isSyncCopy cmd → cfg.basePath.length + 6 + filename.length < 256) (out : Outbound)
    (w : World) : Touches (RequestPath cfg cmd (dataPath cfg filename))
      (w.touch (dataPath cfg filename)) (f n inb out w).world := by
  by_cases hs : isSyncCopy cmd
  · obtain ⟨r, hr, rfl⟩ := copyFile_accepted hs hname
    have hcut : cutPath (dataPath cfg r.filename) = dataPath cfg r.filename := by
      have hlen := length_dataPath cfg r.filename
      have hlt := hroom hs
      exact List.take_of_length_le (show _ ≤ 255 by omega)
    have hcmd : ¬ isLookup cmd := by
      obtain rfl | rfl := hs <;> decide
    have htouches := @syncCopyFile_touches cfg env cmd hcmd w cmd r
    rw [hcut] at htouches
    have hhandler : f = storageSyncCopyFile cfg env cmd := by
      obtain rfl | rfl := hs
      · exact (Option.some.inj hf).symm
      · exact (Option.some.inj hf).symm
    subst hhandler
    simp only [storageSyncCopyFile, withBody, hr, act]
    exact htouches
  · rw [acceptedName_eq hs] at hname
    exact handler_touches hf hu (fun hc => absurd hc hs) hname out w

/-- The paths of an accepted request are whole exactly when its arrays leave room for them. -/
theorem paths_whole_iff (cfg : Config) (env : RequestEnv) (cmd : Byte) (n : ℤ) (inb : Inbound)
    (out : Outbound) (w : World) {f : ℤ → Inbound → Outbound → World → Handled}
    {filename : Bytes} (hf : handler cfg env cmd = some f)
    (hu : cmd ≠ STORAGE_PROTO_CMD_UPLOAD_FILE)
    (hname : acceptedName cfg env cmd n inb = .ok filename) :
    PathsWhole cfg cmd filename w (f n inb out w).world ↔ LeavesRoom cfg cmd w filename := by
  refine ⟨PathsWhole.leavesRoom, fun h => ⟨?_, ?_⟩⟩
  · refine (handler_passes hf hu hname h.1 out w).imp fun p hp => ?_
    obtain hp | hp | ⟨-, hp⟩ := hp
    · exact .inl hp
    · exact .inr (.inl hp)
    · exact .inr (.inr hp)
  · exact formatted_fits hf (fun hs => length_acceptedName_le hu hs hname) hu h

/-- Below an installed base path every handler but that of a copy has room. -/
theorem leavesRoom_of_installed {items : List IniItemInfo} {errno : Errno}
    (hbase : loadBasePath items errno v = .ok cfg.basePath) (hs : ¬ isSyncCopy cmd)
    (hlen : filename.length ≤ 31) : LeavesRoom cfg cmd w filename := by
  have h128 := length_loadBasePath_le hbase
  refine ⟨fun hc => absurd hc hs, fun _ => ?_⟩
  split <;> omega

end Arrays

/-- A delete below a base path of any length. -/
theorem sampleDelete_paths_whole : PathsWhole sampleConfig STORAGE_PROTO_CMD_DELETE_FILE
    (ascii "x") (.initial .empty [])
    (storageDeleteFile sampleConfig {} 17 ⟨UploadRoundTrip.downloadBody sampleConfig (ascii "x"), []⟩
      ⟨[], []⟩ (.initial .empty [])).world :=
  (paths_whole_iff sampleConfig {} STORAGE_PROTO_CMD_DELETE_FILE 17
    ⟨UploadRoundTrip.downloadBody sampleConfig (ascii "x"), []⟩ ⟨[], []⟩ (.initial .empty []) rfl
    (by decide) (by decide +kernel)).mpr
    ⟨fun hs => absurd hs (by decide), fun hc => absurd hc (by decide)⟩

/-- A server below the longest base path a configuration file can name. -/
def deepConfig : Config :=
  { sampleConfig with
    basePath := LexicalPaths.slash :: List.replicate 127 98
    basePath_cstr := by decide +kernel
    basePath_ne := List.cons_ne_nil _ _
    basePath_length := by decide +kernel }

def deepWorld : World := .initial (FileTree.empty.makeDir [List.replicate 127 98]) []

/-- The longest name a copy accepts. -/
def longName : Bytes := List.replicate 127 110

def longCopy : Bytes :=
  ascii "7f" ++ List.replicate 7 0 ++ ascii "0" ++ List.replicate 8 0 ++
    (ascii "g" ++ List.replicate 15 0) ++ longName

theorem longCopy_cut :
    (∃ items, iniLoadItems insertionIniQsort {}
        (iniText [(ascii "base_path", deepConfig.basePath)]) = .ok items ∧
      loadBasePath items 0 deepWorld = .ok deepConfig.basePath) ∧
    acceptedName deepConfig {} STORAGE_PROTO_CMD_SYNC_CREATE_FILE longCopy.length ⟨longCopy, []⟩ =
      .ok longName ∧
    ¬ PathsWhole deepConfig STORAGE_PROTO_CMD_SYNC_CREATE_FILE longName deepWorld
      (storageSyncCopyFile deepConfig {} STORAGE_PROTO_CMD_SYNC_CREATE_FILE longCopy.length
        ⟨longCopy, []⟩ ⟨[], []⟩ deepWorld).world := by
  refine ⟨⟨_, rfl, by decide +kernel⟩, by decide +kernel, fun h => ?_⟩
  have hroom := h.leavesRoom.1 (.inl rfl)
  exact absurd hroom (by decide +kernel)

end DemoStorage.PathArrays
