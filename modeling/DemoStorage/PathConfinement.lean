import DemoStorage.ReplicaRedelivery

/-!
# The paths a request reaches

Every path a handler hands to the file system is the path of the requested name, that of
its metadata file or one of the log's. The name is not checked, so the first two go wherever
the name leads; they stay inside the data directory exactly when the name does, and those of
the log always do unless the base path leaves no room for them.
-/

namespace DemoStorage.PathConfinement
open ByteStrings LexicalPaths PosixFileTree SocketTransfers DaemonState BinlogWriting
open BinlogOutcomes RequestHandlers ServiceThread ConnectionFraming UploadRoundTrip
open ReplicaRedelivery

/-- The new paths all have a property. -/
def Touches (P : Bytes → Prop) (w v : World) : Prop := ∃ ps, v.calls = w.calls ++ ps ∧ ∀ p ∈ ps, P p

section Touching
variable {P : Bytes → Prop} {w v u : World} {p : Bytes}

theorem Touches.of_eq (h : v.calls = w.calls) : Touches P w v := ⟨[], by simpa using h, by simp⟩

theorem Touches.of_touch (hp : P p) (h : v.calls = (w.touch p).calls) : Touches P w v :=
  ⟨[p], h, by simpa using hp⟩

theorem Touches.trans (h : Touches P w v) (h' : Touches P v u) : Touches P w u := by
  obtain ⟨ps, hv, hps⟩ := h
  obtain ⟨qs, hu, hqs⟩ := h'
  refine ⟨ps ++ qs, by rw [hu, hv, List.append_assoc], fun p hp => ?_⟩
  exact (List.mem_append.mp hp).elim (hps p) (hqs p)

theorem Touches.imp {Q : Bytes → Prop} (h : Touches P w v) (hPQ : ∀ p, P p → Q p) :
    Touches Q w v := by
  obtain ⟨ps, hv, hps⟩ := h
  exact ⟨ps, hv, fun p hp => hPQ p (hps p hp)⟩

theorem unlink_calls (fault : Option Errno) (w : World) (p : Bytes) :
    (unlink fault w p).1.calls = (w.touch p).calls := by
  unfold unlink
  split
  · rfl
  · split <;> rfl

theorem writeToFile_calls (f : WriteFaults) (w : World) (p buff : Bytes) :
    (writeToFile f w p buff).1.calls = (w.touch p).calls := by
  unfold writeToFile
  split
  · rfl
  · split
    · rfl
    · split
      · rfl
      · split <;> rfl

theorem getFileContent_calls (f : ReadFaults) (w : World) (p : Bytes) :
    (getFileContent f w p).1.calls = (w.touch p).calls := by
  rw [getFileContent_world]

end Touching

section Log
variable {cfg : Config} {w : World}

/-- A path of the log: the index file or a binlog file. -/
def LogPath (cfg : Config) (p : Bytes) : Prop :=
  p = binlogIndexFilename cfg ∨ ∃ index, p = binlogFilename cfg index

theorem writeToBinlogIndex_touches (cfg : Config) (f : IndexFaults) (w : World) :
    Touches (LogPath cfg) w (writeToBinlogIndex cfg f w).1 := by
  refine .of_touch (p := binlogIndexFilename cfg) (.inl rfl) ?_
  simp only [writeToBinlogIndex]
  split
  · rfl
  · split
    · rfl
    · split <;> rfl

theorem unlinkExisting_touches {P : Bytes → Prop} (fault : Option Errno) (w : World) {p : Bytes}
    (hp : P p) : Touches P w (unlinkExisting fault w p).1 := by
  have htested : Touches P w (w.touch p) := .of_touch hp rfl
  by_cases hx : w.tree.access w.cwd p = true
  · have he : unlinkExisting fault w p = unlink fault (w.touch p) p := by
      simp [unlinkExisting, fileExists, hx]
    rw [he]
    exact htested.trans (.of_touch hp (unlink_calls fault (w.touch p) p))
  · have he : unlinkExisting fault w p = (w.touch p, none) := by
      simp [unlinkExisting, fileExists, hx]
    rw [he]
    exact htested

theorem openNextWritableBinlog_touches (cfg : Config) (f : RotateFaults) (w : World) :
    Touches (LogPath cfg) w (openNextWritableBinlog cfg f w).1 := by
  have hdestroy : (storageSyncDestroy f.destroy w).1.calls = w.calls := by
    unfold storageSyncDestroy
    split <;> split_ifs <;> rfl
  simp only [openNextWritableBinlog]
  generalize (storageSyncDestroy f.destroy w).1 = v at hdestroy ⊢
  have hp : LogPath cfg (getWritableBinlogFilename cfg v) := .inr ⟨v.binlogIndex, rfl⟩
  have hunlink := (Touches.of_eq hdestroy).trans (unlinkExisting_touches f.unlink v hp)
  generalize unlinkExisting f.unlink v (getWritableBinlogFilename cfg v) = r at hunlink ⊢
  refine hunlink.trans ?_
  split_ifs
  · exact .of_eq rfl
  · split <;> exact .of_touch hp rfl
  · split <;> exact .of_touch hp rfl

theorem rotateBinlog_touches (cfg : Config) (f : RotateFaults) (w : World) :
    Touches (LogPath cfg) w (rotateBinlog cfg f w).1 := by
  have hindex := writeToBinlogIndex_touches cfg f.index
    { w with binlogIndex := wrap32 (w.binlogIndex + 1) }
  have hstart : Touches (LogPath cfg) w { w with binlogIndex := wrap32 (w.binlogIndex + 1) } :=
    .of_eq rfl
  simp only [rotateBinlog]
  generalize writeToBinlogIndex cfg f.index { w with binlogIndex := _ } = r at hindex ⊢
  refine (hstart.trans hindex).trans ?_
  have hnext := openNextWritableBinlog_touches cfg f r.1
  split_ifs
  · exact hnext.trans (.of_eq rfl)
  · exact hnext.trans (.of_eq rfl)
  · exact .of_eq rfl

/-- A binlog write reaches only paths of the log. -/
theorem storageBinlogWrite_touches (cfg : Config) (f : BinlogFaults) (w : World) (op : Byte)
    (filename : Bytes) : Touches (LogPath cfg) w (storageBinlogWrite cfg f w op filename).1 := by
  have hout := storageBinlogWrite_outcome cfg f w op filename
  generalize storageBinlogWrite cfg f w op filename = r at hout ⊢
  obtain ⟨v, r⟩ := r
  dsimp only at hout ⊢
  cases hout with
  | nullStream => exact .of_eq rfl
  | refused => exact .of_eq rfl
  | died => exact .of_eq rfl
  | torn => exact .of_eq rfl
  | logged => exact .of_eq rfl
  | notUnlocked => exact .of_eq rfl
  | rotated s =>
    have hflushed : Touches (LogPath cfg) w
        (flushed w s.loc (recordText (logRecord f op filename))) := .of_eq rfl
    exact hflushed.trans (rotateBinlog_touches cfg f.rotate _)

end Log

section Places
variable {cfg : Config} {cwd : Loc}

/-- The bytes of a path behind `/data/` that an array of `MAX_PATH_SIZE` bytes holds. -/
def room (cfg : Config) : ℕ := MAX_PATH_SIZE - 1 - (cfg.basePath.length + 6)

theorem cutPath_below_data (h : 0 < room cfg) (p : Bytes) :
    cutPath ((cfg.basePath ++ ascii "/data") ++ slash :: p) =
      (cfg.basePath ++ ascii "/data") ++ slash :: p.take (room cfg) := by
  have hlen : (cfg.basePath ++ ascii "/data").length = cfg.basePath.length + 5 := by
    rw [List.length_append]
    rfl
  have hle : (cfg.basePath ++ ascii "/data").length ≤ MAX_PATH_SIZE - 1 := by
    unfold room at h
    omega
  have hrest : MAX_PATH_SIZE - 1 - (cfg.basePath ++ ascii "/data").length = room cfg + 1 := by
    unfold room at h ⊢
    omega
  rw [cutPath, List.take_append, List.take_of_length_le hle, hrest, List.take_succ_cons]

theorem cutPath_dataPath (h : 0 < room cfg) (name : Bytes) :
    cutPath (dataPath cfg name) = dataPath cfg (name.take (room cfg)) := by
  rw [dataPath_eq, dataPath_eq, cutPath_below_data h]

/-- The metadata file is inside the data directory when the file is. -/
theorem inside_meta {name : Bytes} (h : Inside (dataDir cfg cwd) (lexical cwd (dataPath cfg name))) :
    Inside (dataDir cfg cwd) (lexical cwd (dataPath cfg name ++ STORAGE_META_FILE_EXT)) := by
  obtain ⟨cs, last, hname, hmeta⟩ :=
    @components_append_of_notMem name STORAGE_META_FILE_EXT (by decide)
  rw [← dataPath_meta, lexical_dataPath, hmeta, component_meta, resolveFrom_append]
  rw [lexical_dataPath, hname, resolveFrom_append] at h
  exact h.of_apply _

private theorem component_ne_up {p : Bytes} (h : p.head? ≠ some 46) : component p ≠ .up := by
  unfold component
  split_ifs with h1 h2
  · simp
  · rw [h2] at h
    exact absurd rfl h
  · simp

private theorem take_sync (r : Bytes) (n : ℕ) :
    n ≤ 4 ∧ (ascii "sync/" ++ r).take n = (ascii "sync").take n ∨
      (ascii "sync/" ++ r).take n = ascii "sync" ++ slash :: r.take (n - 5) := by
  by_cases h : n ≤ 4
  · left
    have hsync : ascii "sync/" ++ r = ascii "sync" ++ slash :: r := rfl
    exact ⟨h, by rw [hsync, List.take_append_of_le_length h]⟩
  · right
    have hsync : ascii "sync/" ++ r = (ascii "sync" ++ [slash]) ++ r := rfl
    have hlen : (ascii "sync" ++ [slash]).length = 5 := rfl
    rw [hsync, List.take_append, List.take_of_length_le (by omega), hlen, List.append_assoc]
    rfl

/-- However a path below the log's directory is cut, it has two components at most. -/
private theorem length_components_sync {r : Bytes} (hr : slash ∉ r) (n : ℕ) :
    (components ((ascii "sync/" ++ r).take n)).length ≤ 2 := by
  have hsync : slash ∉ ascii "sync" := by decide
  rcases take_sync r n with ⟨-, h⟩ | h
  · rw [h, components_of_notMem fun hm => hsync (List.mem_of_mem_take hm)]
    exact Nat.le_succ 1
  · rw [h, components_append_slash, components_of_notMem hsync,
      components_of_notMem fun hm => hr (List.mem_of_mem_take hm)]
    exact Nat.le_refl 2

/-- However a path below the log's directory is cut, it stays below the data directory. -/
private theorem confined_sync {r : Bytes} (hr : slash ∉ r) (hdot : r.head? ≠ some 46) {n : ℕ}
    (hn : 0 < n) : Confined (components ((ascii "sync/" ++ r).take n)) := by
  rcases take_sync r n with ⟨hle, hshort⟩ | hlong
  · rw [hshort]
    obtain rfl | rfl | rfl | rfl : n = 1 ∨ n = 2 ∨ n = 3 ∨ n = 4 := by omega
    all_goals decide
  · have hnot : slash ∉ r.take (n - 5) := fun hm => hr (List.mem_of_mem_take hm)
    have hup : component (r.take (n - 5)) ≠ .up := by
      refine component_ne_up ?_
      cases r with
      | nil => simp
      | cons c r =>
        cases n - 5 with
        | zero => simp
        | succ m => simpa using hdot
    have hdir : components (ascii "sync") = [.name (ascii "sync")] := by decide
    rw [hlong, components_append_slash, hdir, components_of_notMem hnot]
    cases hc : component (r.take (n - 5)) with
    | stay => exact ⟨0, rfl⟩
    | up => exact absurd hc hup
    | name a => exact ⟨1, rfl⟩

private theorem digitChar_ne_slash (d : Fin 10) : digitChar d.val ≠ slash := by
  revert d
  decide

theorem slash_notMem_decimal3 (n : ℤ) : slash ∉ decimal3 n := by
  have hnumeral : slash ∉ numeral 10 n.natAbs := by
    rw [numeral_eq_map]
    intro h
    obtain ⟨d, hd, he⟩ := List.mem_map.mp h
    exact digitChar_ne_slash ⟨d, numeralDigits_lt (by decide) d hd⟩ he
  have hzero : slash ≠ 48 := by decide
  have hminus : slash ≠ 45 := by decide
  simp only [decimal3]
  split_ifs <;> simp [hnumeral, hzero, hminus, List.mem_replicate]

private theorem slash_notMem_binlog (index : ℤ) : slash ∉ ascii "binlog." ++ decimal3 index := by
  have hbinlog : slash ∉ ascii "binlog." := by decide
  simp [hbinlog, slash_notMem_decimal3]

/-- Where a file of the log is looked for, with room for at least one byte of its name. -/
private theorem lexical_binlog (h : 0 < room cfg) (index : ℤ) :
    lexical cwd (binlogFilename cfg index) = resolveFrom (dataDir cfg cwd)
      (components ((ascii "sync/" ++ (ascii "binlog." ++ decimal3 index)).take (room cfg))) := by
  have hfile : ascii "/data/sync/binlog." = ascii "/data" ++ slash :: (ascii "sync/" ++
      ascii "binlog.") := by decide
  have he : binlogFilename cfg index = cutPath ((cfg.basePath ++ ascii "/data") ++
      slash :: (ascii "sync/" ++ (ascii "binlog." ++ decimal3 index))) := by
    simp [binlogFilename, hfile]
  rw [he, cutPath_below_data h, lexical_below_data]

/-- The log is at most two components below the data directory. -/
theorem length_lexical_binlog (h : 0 < room cfg) (index : ℤ) :
    (lexical cwd (binlogFilename cfg index)).length ≤ (dataDir cfg cwd).length + 2 := by
  rw [lexical_binlog h]
  have hlen := length_components_sync (slash_notMem_binlog index) (room cfg)
  exact (length_resolveFrom_le _ _).trans (Nat.add_le_add_left hlen _)

/-- The paths of the log are inside the data directory when there is room for one byte. -/
theorem inside_log (h : 0 < room cfg) {p : Bytes} (hp : LogPath cfg p) :
    Inside (dataDir cfg cwd) (lexical cwd p) := by
  have hdata : ascii "/data/sync/" = ascii "/data" ++ slash :: ascii "sync/" := by decide
  obtain rfl | ⟨index, rfl⟩ := hp
  · have he : binlogIndexFilename cfg = cutPath ((cfg.basePath ++ ascii "/data") ++
        slash :: (ascii "sync/" ++ ascii "binlog.index")) := by
      simp [binlogIndexFilename, hdata]
    rw [he, cutPath_below_data h, lexical_below_data]
    exact (confined_sync (by decide) (by decide) h).inside _
  · have hdot : (ascii "binlog." ++ decimal3 index).head? ≠ some 46 := by
      have hhead : (ascii "binlog." ++ decimal3 index).head? = some 98 := rfl
      rw [hhead]
      decide
    rw [lexical_binlog h]
    exact (confined_sync (slash_notMem_binlog index) hdot h).inside _

end Places

section Requests

/-- The file name of a request the handler of a command accepts; a copy request uses as much
of it as its array has room for. -/
def requestName (cfg : Config) (env : RequestEnv) (cmd : Byte) (nInPackLen : ℤ) (inb : Inbound) :
    Except Errno Bytes :=
  (receiveBody env cmd nInPackLen inb).2.bind fun data =>
    if isSyncCopy cmd then (parseSyncCopy cfg nInPackLen data).map fun r => r.filename.take (room cfg)
    else if cmd = STORAGE_PROTO_CMD_SET_METADATA then
      (parseSetMetadata cfg nInPackLen data).map SetMetadataRequest.filename
    else groupFilename cfg EINVAL data

/-- The commands whose handlers write no log. -/
def isLookup (cmd : Byte) : Prop :=
  cmd = STORAGE_PROTO_CMD_DOWNLOAD_FILE ∨ cmd = STORAGE_PROTO_CMD_GET_METADATA

instance (cmd : Byte) : Decidable (isLookup cmd) := inferInstanceAs (Decidable (_ ∨ _))

/-- A path a request reaches: the file's, the metadata file's or, where it logs, the log's. -/
def RequestPath (cfg : Config) (cmd : Byte) (full p : Bytes) : Prop :=
  p = full ∨ p = full ++ STORAGE_META_FILE_EXT ∨ ¬ isLookup cmd ∧ LogPath cfg p

variable {cfg : Config} {env : RequestEnv} {cmd : Byte} {n : ℤ} {inb : Inbound} {filename : Bytes}

private theorem path_full (cfg : Config) (cmd : Byte) (full : Bytes) :
    RequestPath cfg cmd full full := .inl rfl

private theorem path_meta (cfg : Config) (cmd : Byte) (full : Bytes) :
    RequestPath cfg cmd full (full ++ STORAGE_META_FILE_EXT) := .inr (.inl rfl)

private theorem log_touches (f : BinlogFaults) (w : World) (op : Byte) (full name : Bytes)
    (hcmd : ¬ isLookup cmd) :
    Touches (RequestPath cfg cmd full) w (storageBinlogWrite cfg f w op name).1 :=
  (storageBinlogWrite_touches cfg f w op name).imp fun _ hp => .inr (.inr ⟨hcmd, hp⟩)

theorem getMetadata_touches (w : World) : Touches (RequestPath cfg cmd (dataPath cfg filename))
    (w.touch (dataPath cfg filename)) (getMetadata cfg env w filename).1 := by
  have htested : Touches (RequestPath cfg cmd (dataPath cfg filename))
      (w.touch (dataPath cfg filename)) (fileExists w (dataPath cfg filename)).1 := .of_eq rfl
  simp only [getMetadata]
  generalize fileExists w (dataPath cfg filename) = x at htested ⊢
  obtain ⟨d, exist⟩ := x
  cases exist with
  | false => exact htested
  | true => exact htested.trans (.of_touch (path_meta _ _ _) (getFileContent_calls _ _ _))

theorem deleteFile_touches (hcmd : ¬ isLookup cmd) (w : World) :
    Touches (RequestPath cfg cmd (dataPath cfg filename)) (w.touch (dataPath cfg filename))
      (deleteFile cfg env w filename).1 := by
  have hdata := unlink_calls env.unlinkData w (dataPath cfg filename)
  simp only [deleteFile]
  generalize unlink env.unlinkData w (dataPath cfg filename) = u at hdata ⊢
  have hu : Touches (RequestPath cfg cmd (dataPath cfg filename))
      (w.touch (dataPath cfg filename)) u.1 := .of_eq hdata
  have hlog := hu.trans (@log_touches cfg cmd env.log u.1 STORAGE_OP_TYPE_SOURCE_DELETE_FILE
    (dataPath cfg filename) filename hcmd)
  generalize storageBinlogWrite cfg env.log u.1 STORAGE_OP_TYPE_SOURCE_DELETE_FILE filename = x at *
  have hmeta := hlog.trans (.of_touch (path_meta cfg cmd (dataPath cfg filename))
    (unlink_calls env.unlinkMeta x.1 _))
  generalize unlink env.unlinkMeta x.1 (dataPath cfg filename ++ STORAGE_META_FILE_EXT) = y at *
  split_ifs
  · exact hu
  · exact hlog
  · exact hmeta
  · exact hmeta.trans (log_touches _ _ _ _ _ hcmd)

theorem syncDeleteFile_touches (hcmd : ¬ isLookup cmd) (w : World) :
    Touches (RequestPath cfg cmd (dataPath cfg filename)) (w.touch (dataPath cfg filename))
      (syncDeleteFile cfg env w filename).1 := by
  have hdata := unlink_calls env.unlinkData w (dataPath cfg filename)
  simp only [syncDeleteFile]
  generalize unlink env.unlinkData w (dataPath cfg filename) = u at hdata ⊢
  have hu : Touches (RequestPath cfg cmd (dataPath cfg filename))
      (w.touch (dataPath cfg filename)) u.1 := .of_eq hdata
  have hlog := hu.trans (@log_touches cfg cmd env.log u.1 STORAGE_OP_TYPE_REPLICA_DELETE_FILE
    (dataPath cfg filename) filename hcmd)
  split
  · split_ifs
    · exact hlog
    · exact hu
  · exact hlog

theorem setMetadata_touches (w : World) (r : SetMetadataRequest) :
    Touches (RequestPath cfg cmd (dataPath cfg r.filename)) (w.touch (dataPath cfg r.filename))
      (setMetadata cfg env w r).1 := by
  rw [setMetadata_eq]
  split_ifs
  · exact .of_eq rfl
  · exact .of_eq rfl

theorem syncCopyFile_touches (hcmd : ¬ isLookup cmd) (w : World) (protoCmd : Byte)
    (r : SyncCopyRequest) :
    Touches (RequestPath cfg cmd (cutPath (dataPath cfg r.filename)))
      (w.touch (cutPath (dataPath cfg r.filename))) (syncCopyFile cfg env protoCmd w r).1 := by
  generalize hfull : cutPath (dataPath cfg r.filename) = full
  have hwrite (v : World) : Touches (RequestPath cfg cmd full) (v.touch full)
      (writeToFile env.write v full r.content).1 := .of_eq (writeToFile_calls _ _ _ _)
  have htouch : Touches (RequestPath cfg cmd full) (w.touch full) ((w.touch full).touch full) :=
    .of_touch (path_full _ _ _) rfl
  have hstart : (protoCmd = STORAGE_PROTO_CMD_SYNC_CREATE_FILE →
      copyStart protoCmd w full = w.touch full) ∧ Touches (RequestPath cfg cmd full)
        (w.touch full) (writeToFile env.write (copyStart protoCmd w full) full r.content).1 := by
    unfold copyStart
    split_ifs with hc
    · exact ⟨fun _ => rfl, htouch.trans (hwrite (w.touch full))⟩
    · exact ⟨fun he => absurd he hc, hwrite w⟩
  rw [syncCopyFile_eq cfg env protoCmd w r hfull]
  dsimp only
  split_ifs with hx h0
  · rw [hstart.1 hx.1]
    exact .of_eq rfl
  · exact hstart.2
  · exact hstart.2.trans (log_touches _ _ _ _ _ hcmd)

private theorem groupName_ok (hu : cmd ≠ STORAGE_PROTO_CMD_UPLOAD_FILE) (hs : ¬ isSyncCopy cmd)
    (hm : cmd ≠ STORAGE_PROTO_CMD_SET_METADATA) (h : requestName cfg env cmd n inb = .ok filename)
    (e : Errno) : (recvGroupRequest env n inb).2.bind (groupFilename cfg e) = .ok filename := by
  rw [requestName, receiveBody, if_neg hu, if_neg hs, if_neg hm] at h
  cases hr : (recvGroupRequest env n inb).2 with
  | error e =>
    rw [hr] at h
    cases h
  | ok data =>
    rw [hr] at h
    simp only [Except.bind, hs, hm, if_false, groupFilename] at h ⊢
    split_ifs at h ⊢
    exact h

theorem bind_map_ok {α β : Type} {x : Except Errno Bytes} {g : Bytes → Except Errno α}
    {φ : α → β} {b : β} (h : (x.bind fun data => (g data).map φ) = .ok b) :
    ∃ a, x.bind g = .ok a ∧ b = φ a := by
  cases x with
  | error e => cases h
  | ok data =>
    simp only [Except.bind] at h ⊢
    cases hg : g data with
    | error e =>
      rw [hg] at h
      cases h
    | ok a =>
      rw [hg] at h
      cases h
      exact ⟨a, rfl, rfl⟩

private theorem copyName_ok (hs : isSyncCopy cmd) (h : requestName cfg env cmd n inb = .ok filename) :
    ∃ r, (recvAllocated env 34 n n inb).2.bind (parseSyncCopy cfg n) = .ok r ∧
      filename = r.filename.take (room cfg) := by
  have hu : cmd ≠ STORAGE_PROTO_CMD_UPLOAD_FILE := by
    rintro rfl
    exact absurd hs (by decide)
  simp only [requestName, receiveBody, hu, hs, if_true, if_false] at h
  exact bind_map_ok h

private theorem metadataName_ok
    (h : requestName cfg env STORAGE_PROTO_CMD_SET_METADATA n inb = .ok filename) :
    ∃ r, (recvAllocated env 35 n n inb).2.bind (parseSetMetadata cfg n) = .ok r ∧
      filename = r.filename :=
  bind_map_ok h

private theorem copy_touches {w : World} {out : Outbound} (hs : isSyncCopy cmd)
    (hroom : 0 < room cfg) (hname : requestName cfg env cmd n inb = .ok filename) :
    Touches (RequestPath cfg cmd (dataPath cfg filename)) (w.touch (dataPath cfg filename))
      (storageSyncCopyFile cfg env cmd n inb out w).world := by
  have hcmd : ¬ isLookup cmd := by
    obtain rfl | rfl := hs <;> decide
  obtain ⟨r, hr, rfl⟩ := copyName_ok hs hname
  have htouches := @syncCopyFile_touches cfg env cmd hcmd w cmd r
  rw [cutPath_dataPath hroom] at htouches
  simp only [storageSyncCopyFile, withBody, hr, act]
  exact htouches

/-- What a handler reaches: first the path of the name, then only paths that go with it. -/
theorem handler_touches {f : ℤ → Inbound → Outbound → World → Handled}
    (hf : handler cfg env cmd = some f) (hu : cmd ≠ STORAGE_PROTO_CMD_UPLOAD_FILE)
    (hroom : isSyncCopy cmd → 0 < room cfg) (hname : requestName cfg env cmd n inb = .ok filename)
    (out : Outbound) (w : World) : Touches (RequestPath cfg cmd (dataPath cfg filename))
      (w.touch (dataPath cfg filename)) (f n inb out w).world := by
  cases handles_of_handler hf with
  | downloadFile =>
    have hok := groupName_ok (by decide) (by decide) (by decide) hname
    simp only [storageDownloadFile, withBody, hok]
    exact .of_eq (getFileContent_calls _ _ _)
  | getMetadata =>
    have hok := groupName_ok (by decide) (by decide) (by decide) hname
    simp only [storageGetMetadata, withBody, hok]
    exact getMetadata_touches w
  | uploadFile => exact absurd rfl hu
  | deleteFile =>
    have hok := groupName_ok (by decide) (by decide) (by decide) hname
    simp only [storageDeleteFile, withBody, hok, act]
    exact deleteFile_touches (by decide) w
  | syncCreateFile => exact copy_touches (.inl rfl) (hroom (.inl rfl)) hname
  | syncDeleteFile =>
    have hok := groupName_ok (by decide) (by decide) (by decide) hname
    simp only [storageSyncDeleteFile, withBody, hok, act]
    exact syncDeleteFile_touches (by decide) w
  | syncUpdateFile => exact copy_touches (.inr rfl) (hroom (.inr rfl)) hname
  | setMetadata =>
    obtain ⟨r, hr, rfl⟩ := metadataName_ok hname
    simp only [storageSetMetadata, withBody, hr, act]
    exact setMetadata_touches w r

/-- The paths of an accepted request are strictly inside the data directory exactly when its
file name, read from there, leads strictly inside. -/
theorem request_paths_inside {f : ℤ → Inbound → Outbound → World → Handled}
    (hf : handler cfg env cmd = some f) (hu : cmd ≠ STORAGE_PROTO_CMD_UPLOAD_FILE)
    (hroom : isLookup cmd ∨ 0 < room cfg) (hname : requestName cfg env cmd n inb = .ok filename)
    (out : Outbound) (w : World) : ∃ ps, (f n inb out w).world.calls = w.calls ++ ps ∧
      ((∀ p ∈ ps, Inside (dataDir cfg w.cwd) (lexical w.cwd p)) ↔
        Inside (dataDir cfg w.cwd) (resolveFrom (dataDir cfg w.cwd) (components filename))) := by
  have hcopy (hs : isSyncCopy cmd) : ¬ isLookup cmd := by
    obtain rfl | rfl := hs <;> decide
  obtain ⟨ps, hcalls, hps⟩ := handler_touches hf hu (fun hs => hroom.resolve_left (hcopy hs))
    hname out w
  refine ⟨dataPath cfg filename :: ps, ?_, fun h => ?_, fun h p hp => ?_⟩
  · rw [hcalls, World.touch_calls, List.append_assoc]
    rfl
  · rw [← lexical_dataPath]
    exact h _ List.mem_cons_self
  · rw [← lexical_dataPath] at h
    obtain rfl | hp := List.mem_cons.mp hp
    · exact h
    · obtain rfl | rfl | ⟨hcmd, hlog⟩ := hps p hp
      · exact h
      · exact inside_meta h
      · exact inside_log (hroom.resolve_left hcmd) hlog

/-- A copy of a name that never climbs above the data directory. -/
theorem sampleCopy_paths_inside : ∃ ps, (storageSyncCopyFile sampleConfig {}
    STORAGE_PROTO_CMD_SYNC_CREATE_FILE samplePackage.length ⟨samplePackage, []⟩ ⟨[], []⟩
      freshWorld).world.calls = freshWorld.calls ++ ps ∧
    ∀ p ∈ ps, Inside (dataDir sampleConfig freshWorld.cwd) (lexical freshWorld.cwd p) := by
  have hhandler : handler sampleConfig {} STORAGE_PROTO_CMD_SYNC_CREATE_FILE =
      some (storageSyncCopyFile sampleConfig {} STORAGE_PROTO_CMD_SYNC_CREATE_FILE) := rfl
  have hname : requestName sampleConfig {} STORAGE_PROTO_CMD_SYNC_CREATE_FILE samplePackage.length
      ⟨samplePackage, []⟩ = .ok (ascii "00/00/f") := by decide +kernel
  have hconfined : Confined (components (ascii "00/00/f")) := by decide +kernel
  obtain ⟨ps, hcalls, hinside⟩ :=
    request_paths_inside hhandler (by decide) (.inr (by decide)) hname ⟨[], []⟩ freshWorld
  exact ⟨ps, hcalls, hinside.mpr (hconfined.inside _)⟩

/-- A server whose base path leaves no room for a file name in an array of 256 bytes. -/
def longConfig : Config :=
  { sampleConfig with
    basePath := slash :: List.replicate 251 98
    basePath_cstr := by decide +kernel
    basePath_ne := List.cons_ne_nil _ _
    basePath_length := by decide +kernel }

/-- A name that climbs is downloaded from outside, and a long base path is cut to another
directory even for a name that does not climb. -/
theorem requests_escape :
    (requestName sampleConfig {} STORAGE_PROTO_CMD_DOWNLOAD_FILE 20
        ⟨downloadBody sampleConfig (ascii "../x"), []⟩ = .ok (ascii "../x") ∧
      ∃ p ∈ (storageDownloadFile sampleConfig {} 20 ⟨downloadBody sampleConfig (ascii "../x"), []⟩
          ⟨[], []⟩ (.initial sampleDirs [])).world.calls,
        ¬ Inside (dataDir sampleConfig []) (lexical [] p)) ∧
    (parseSyncCopy longConfig samplePackage.length samplePackage = .ok sampleRequest ∧
      ∃ p ∈ (storageSyncCopyFile longConfig {} STORAGE_PROTO_CMD_SYNC_CREATE_FILE
          samplePackage.length ⟨samplePackage, []⟩ ⟨[], []⟩ (.initial .empty [])).world.calls,
        ¬ Inside (dataDir longConfig []) (lexical [] p)) := by
  refine ⟨⟨by decide +kernel, dataPath sampleConfig (ascii "../x"), by decide +kernel, ?_⟩,
    by decide +kernel, cutPath (dataPath longConfig (ascii "00/00/f")), by decide +kernel, ?_⟩
  · exact fun h => absurd h.take_eq (by decide +kernel)
  · exact fun h => absurd h.take_eq (by decide +kernel)

end Requests

end DemoStorage.PathConfinement
