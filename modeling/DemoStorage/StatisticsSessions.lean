import DemoStorage.ServiceThread
import DemoStorage.UploadExits
import DemoStorage.ThreadPools

/-!
# Sessions that share the statistics

Each session is a turn of `storage_thread_entrance` after the other: a total is advanced
before the handler runs, a success and a time stamp behind it, then the change counter, and
now and then the statistics are written to their file. Every one of these is a step, and
the steps of different sessions interleave. The handlers themselves leave the statistics
alone, so what else they do to the state is left open.
-/

namespace DemoStorage.StatisticsSessions
open ByteStrings PosixFileTree SocketTransfers DaemonState BinlogWriting BinlogOutcomes
open RequestHandlers UploadExits ServiceThread ThreadPools

section Counters

/-- The kinds of request that are counted. -/
inductive Kind where
  | upload
  | download
  | delete
  | setMetadata
  | getMetadata
  deriving DecidableEq

def kindOf (cmd : Byte) : Option Kind :=
  if cmd = STORAGE_PROTO_CMD_DOWNLOAD_FILE then some .download
  else if cmd = STORAGE_PROTO_CMD_GET_METADATA then some .getMetadata
  else if cmd = STORAGE_PROTO_CMD_UPLOAD_FILE then some .upload
  else if cmd = STORAGE_PROTO_CMD_DELETE_FILE then some .delete
  else if cmd = STORAGE_PROTO_CMD_SET_METADATA then some .setMetadata
  else none

def Kind.total : Kind → FDFSStorageStat → ℤ
  | .upload, s => s.totalUploadCount
  | .download, s => s.totalDownloadCount
  | .delete, s => s.totalDeleteCount
  | .setMetadata, s => s.totalSetMetaCount
  | .getMetadata, s => s.totalGetMetaCount

def Kind.success : Kind → FDFSStorageStat → ℤ
  | .upload, s => s.successUploadCount
  | .download, s => s.successDownloadCount
  | .delete, s => s.successDeleteCount
  | .setMetadata, s => s.successSetMetaCount
  | .getMetadata, s => s.successGetMetaCount

/-- The success counter, the first statement behind a handler that returned 0. -/
def countSucceeded (cmd : Byte) (s : FDFSStorageStat) : FDFSStorageStat :=
  if cmd = STORAGE_PROTO_CMD_DOWNLOAD_FILE then
    { s with successDownloadCount := wrap32 (s.successDownloadCount + 1) }
  else if cmd = STORAGE_PROTO_CMD_GET_METADATA then
    { s with successGetMetaCount := wrap32 (s.successGetMetaCount + 1) }
  else if cmd = STORAGE_PROTO_CMD_UPLOAD_FILE then
    { s with successUploadCount := wrap32 (s.successUploadCount + 1) }
  else if cmd = STORAGE_PROTO_CMD_DELETE_FILE then
    { s with successDeleteCount := wrap32 (s.successDeleteCount + 1) }
  else if cmd = STORAGE_PROTO_CMD_SET_METADATA then
    { s with successSetMetaCount := wrap32 (s.successSetMetaCount + 1) }
  else s

/-- The time of the last update, the second statement. -/
def stampUpdate (cmd : Byte) (now : ℤ) (s : FDFSStorageStat) : FDFSStorageStat :=
  if cmd = STORAGE_PROTO_CMD_DOWNLOAD_FILE then s
  else if cmd = STORAGE_PROTO_CMD_GET_METADATA then s
  else if cmd = STORAGE_PROTO_CMD_UPLOAD_FILE then { s with lastSourceUpdate := now }
  else if cmd = STORAGE_PROTO_CMD_DELETE_FILE then { s with lastSourceUpdate := now }
  else if cmd = STORAGE_PROTO_CMD_SET_METADATA then { s with lastSourceUpdate := now }
  else { s with lastSyncUpdate := now }

theorem countSuccess_eq (cmd : Byte) (now : ℤ) (s : FDFSStorageStat) :
    countSuccess cmd now s = stampUpdate cmd now (countSucceeded cmd s) := by
  unfold countSuccess stampUpdate countSucceeded
  split_ifs <;> rfl

/-- One more request of a kind. -/
def Kind.addTotal : Kind → FDFSStorageStat → FDFSStorageStat
  | .upload, s => { s with totalUploadCount := wrap32 (s.totalUploadCount + 1) }
  | .download, s => { s with totalDownloadCount := wrap32 (s.totalDownloadCount + 1) }
  | .delete, s => { s with totalDeleteCount := wrap32 (s.totalDeleteCount + 1) }
  | .setMetadata, s => { s with totalSetMetaCount := wrap32 (s.totalSetMetaCount + 1) }
  | .getMetadata, s => { s with totalGetMetaCount := wrap32 (s.totalGetMetaCount + 1) }

/-- One more success of a kind. -/
def Kind.addSuccess : Kind → FDFSStorageStat → FDFSStorageStat
  | .upload, s => { s with successUploadCount := wrap32 (s.successUploadCount + 1) }
  | .download, s => { s with successDownloadCount := wrap32 (s.successDownloadCount + 1) }
  | .delete, s => { s with successDeleteCount := wrap32 (s.successDeleteCount + 1) }
  | .setMetadata, s => { s with successSetMetaCount := wrap32 (s.successSetMetaCount + 1) }
  | .getMetadata, s => { s with successGetMetaCount := wrap32 (s.successGetMetaCount + 1) }

variable (k : Kind) (cmd : Byte) (s : FDFSStorageStat)

theorem countTotal_eq : countTotal cmd s = (kindOf cmd).elim s fun j => j.addTotal s := by
  unfold countTotal kindOf
  split_ifs <;> rfl

theorem countSucceeded_eq :
    countSucceeded cmd s = (kindOf cmd).elim s fun j => j.addSuccess s := by
  unfold countSucceeded kindOf
  split_ifs <;> rfl

theorem total_addTotal (j : Kind) :
    k.total (j.addTotal s) = if j = k then wrap32 (k.total s + 1) else k.total s := by
  cases j <;> cases k <;> rfl

theorem success_addTotal (j : Kind) : k.success (j.addTotal s) = k.success s := by
  cases j <;> cases k <;> rfl

theorem success_addSuccess (j : Kind) :
    k.success (j.addSuccess s) = if j = k then wrap32 (k.success s + 1) else k.success s := by
  cases j <;> cases k <;> rfl

theorem total_addSuccess (j : Kind) : k.total (j.addSuccess s) = k.total s := by
  cases j <;> cases k <;> rfl

theorem total_countTotal : k.total (countTotal cmd s) =
    if kindOf cmd = some k then wrap32 (k.total s + 1) else k.total s := by
  rw [countTotal_eq]
  cases kindOf cmd with
  | none => rfl
  | some j => simpa using total_addTotal k s j

theorem success_countTotal : k.success (countTotal cmd s) = k.success s := by
  rw [countTotal_eq]
  cases kindOf cmd with
  | none => rfl
  | some j => exact success_addTotal k s j

theorem success_countSucceeded : k.success (countSucceeded cmd s) =
    if kindOf cmd = some k then wrap32 (k.success s + 1) else k.success s := by
  rw [countSucceeded_eq]
  cases kindOf cmd with
  | none => rfl
  | some j => simpa using success_addSuccess k s j

theorem total_countSucceeded : k.total (countSucceeded cmd s) = k.total s := by
  rw [countSucceeded_eq]
  cases kindOf cmd with
  | none => rfl
  | some j => exact total_addSuccess k s j

/-- Only the two update times are touched. -/
theorem stampUpdate_cases (now : ℤ) :
    ∃ t u, stampUpdate cmd now s = { s with lastSourceUpdate := t, lastSyncUpdate := u } := by
  unfold stampUpdate
  split_ifs <;> exact ⟨_, _, rfl⟩

theorem total_stampUpdate (now : ℤ) : k.total (stampUpdate cmd now s) = k.total s := by
  obtain ⟨t, u, h⟩ := stampUpdate_cases cmd s now
  rw [h]
  cases k <;> rfl

theorem success_stampUpdate (now : ℤ) : k.success (stampUpdate cmd now s) = k.success s := by
  obtain ⟨t, u, h⟩ := stampUpdate_cases cmd s now
  rw [h]
  cases k <;> rfl

end Counters

/-- Program points of a session between two steps on what it shares with the others. -/
inductive Pc where
  | ready
  | handling (cmd : Byte)
  | succeeded (cmd : Byte)
  | counted (cmd : Byte)
  | stamped
  | saving
  | ended
  deriving DecidableEq

/-- What a step of a session finds: the command of the next header, if there is one, what
the handler leaves and returns, the time, and the failures of writing the statistics. -/
structure Findings where
  cmd : Option Byte := none
  after : World := .initial .empty []
  result : Errno := 0
  now : ℤ := 0
  stat : StatFaults := {}

/-- The commands the loop has a branch for. -/
def isServed (cmd : Byte) : Bool :=
  (kindOf cmd).isSome || cmd = STORAGE_PROTO_CMD_SYNC_CREATE_FILE ||
    cmd = STORAGE_PROTO_CMD_SYNC_DELETE_FILE || cmd = STORAGE_PROTO_CMD_SYNC_UPDATE_FILE

/-- A state with the statistics of another. -/
def keepStatistics (w v : World) : World :=
  { v with stat := w.stat, statChangeCount := w.statChangeCount, statFile := w.statFile }

def sessionMove (w : World) (f : Findings) : Pc → World × Pc
  | .ready => match f.cmd with
    | none => (w, .ended)
    | some cmd =>
      if isServed cmd then ({ w with stat := countTotal cmd w.stat }, .handling cmd)
      else (w, .ended)
  | .handling cmd => (keepStatistics w f.after, if f.result ≠ 0 then .ended else .succeeded cmd)
  | .succeeded cmd => ({ w with stat := countSucceeded cmd w.stat }, .counted cmd)
  | .counted cmd => ({ w with stat := stampUpdate cmd f.now w.stat }, .stamped)
  | .stamped =>
    let n := wrap32 (w.statChangeCount + 1)
    ({ w with statChangeCount := n }, if n % STORAGE_SYNC_STAT_FILE_FREQ = 0 then .saving else .ready)
  | .saving =>
    let r := storageWriteToStatFile f.stat w
    (r.1, if r.2 ≠ 0 then .ended else .ready)
  | .ended => (w, .ended)

/-- The daemon as its sessions see it. -/
structure Daemon where
  world : World
  sessions : List Pc

def Daemon.accept (d : Daemon) : Daemon := { d with sessions := d.sessions ++ [.ready] }

def Daemon.session (d : Daemon) (i : ℕ) (f : Findings) : Daemon :=
  match d.sessions[i]? with
  | none => d
  | some pc =>
    let r := sessionMove d.world f pc
    ⟨r.1, d.sessions.set i r.2⟩

/-- Writing the statistics changes nothing but their file. -/
theorem storageWriteToStatFile_world (f : StatFaults) (w : World) :
    ∃ b, (storageWriteToStatFile f w).1 = { w with statFile := b } := by
  unfold storageWriteToStatFile storageWriteToFd
  split
  · exact ⟨w.statFile, rfl⟩
  · split
    · exact ⟨[], rfl⟩
    · split
      · exact ⟨_, rfl⟩
      · exact ⟨_, rfl⟩

/-- The change counter is advanced by one step only, which leaves the statistics alone. -/
theorem sessionMove_changeCount (w : World) (f : Findings) (pc : Pc) :
    (sessionMove w f pc).1.statChangeCount = w.statChangeCount ∨
      pc = .stamped ∧ (sessionMove w f pc).1.stat = w.stat ∧
        (sessionMove w f pc).1.statChangeCount = wrap32 (w.statChangeCount + 1) := by
  cases pc with
  | ready =>
    left
    simp only [sessionMove]
    split
    · rfl
    · split_ifs <;> rfl
  | handling cmd => exact .inl rfl
  | succeeded cmd => exact .inl rfl
  | counted cmd => exact .inl rfl
  | stamped => exact .inr ⟨rfl, rfl, rfl⟩
  | saving =>
    left
    obtain ⟨b, hb⟩ := storageWriteToStatFile_world f.stat w
    simp only [sessionMove, hb]
  | ended => exact .inl rfl

/-! The handlers leave the statistics alone, and a turn that nobody interrupts is the one of
`serve`. -/

section Handlers

structure SameStatistics (w v : World) : Prop where
  stat : v.stat = w.stat
  changeCount : v.statChangeCount = w.statChangeCount
  file : v.statFile = w.statFile

variable {w v u : World} {cfg : Config} {env : RequestEnv}

theorem SameStatistics.refl (w : World) : SameStatistics w w := ⟨rfl, rfl, rfl⟩

theorem SameStatistics.trans (h : SameStatistics w v) (h' : SameStatistics v u) :
    SameStatistics w u :=
  ⟨h'.stat.trans h.stat, h'.changeCount.trans h.changeCount, h'.file.trans h.file⟩

theorem SameStatistics.keep (h : SameStatistics w v) : keepStatistics w v = v := by
  obtain ⟨h1, h2, h3⟩ := h
  rw [keepStatistics, ← h1, ← h2, ← h3]

theorem unlink_same (fault : Option Errno) (w : World) (p : Bytes) :
    SameStatistics w (unlink fault w p).1 := by
  unfold unlink
  split
  · exact ⟨rfl, rfl, rfl⟩
  · split <;> exact ⟨rfl, rfl, rfl⟩

theorem writeToFile_same (f : WriteFaults) (w : World) (p buff : Bytes) :
    SameStatistics w (writeToFile f w p buff).1 := by
  unfold writeToFile
  split
  · exact ⟨rfl, rfl, rfl⟩
  · split
    · exact ⟨rfl, rfl, rfl⟩
    · split
      · exact ⟨rfl, rfl, rfl⟩
      · split_ifs <;> exact ⟨rfl, rfl, rfl⟩

theorem getFileContent_same (f : ReadFaults) (w : World) (p : Bytes) :
    SameStatistics w (getFileContent f w p).1 := by
  rw [getFileContent_world]
  exact ⟨rfl, rfl, rfl⟩

theorem writeToBinlogIndex_same (cfg : Config) (f : IndexFaults) (w : World) :
    SameStatistics w (writeToBinlogIndex cfg f w).1 := by
  simp only [writeToBinlogIndex]
  split
  · exact ⟨rfl, rfl, rfl⟩
  · split
    · exact ⟨rfl, rfl, rfl⟩
    · split_ifs <;> exact ⟨rfl, rfl, rfl⟩

theorem storageSyncDestroy_same (f : DestroyFaults) (w : World) :
    SameStatistics w (storageSyncDestroy f w).1 := by
  unfold storageSyncDestroy
  split <;> split_ifs <;> exact ⟨rfl, rfl, rfl⟩

theorem unlinkExisting_same (fault : Option Errno) (w : World) (p : Bytes) :
    SameStatistics w (unlinkExisting fault w p).1 := by
  have hw : SameStatistics w (w.touch p) := ⟨rfl, rfl, rfl⟩
  unfold unlinkExisting fileExists
  cases w.tree.access w.cwd p with
  | true => exact hw.trans (unlink_same fault _ p)
  | false => exact hw

theorem openNextWritableBinlog_same (cfg : Config) (f : RotateFaults) (w : World) :
    SameStatistics w (openNextWritableBinlog cfg f w).1 := by
  have hd := storageSyncDestroy_same f.destroy w
  simp only [openNextWritableBinlog]
  generalize (storageSyncDestroy f.destroy w).1 = v at hd ⊢
  have hu := hd.trans (unlinkExisting_same f.unlink v (getWritableBinlogFilename cfg v))
  generalize unlinkExisting f.unlink v (getWritableBinlogFilename cfg v) = r at hu ⊢
  split_ifs
  · exact hu
  · split <;> exact hu.trans ⟨rfl, rfl, rfl⟩
  · split <;> exact hu.trans ⟨rfl, rfl, rfl⟩

theorem rotateBinlog_same (cfg : Config) (f : RotateFaults) (w : World) :
    SameStatistics w (rotateBinlog cfg f w).1 := by
  have hi := writeToBinlogIndex_same cfg f.index
    { w with binlogIndex := wrap32 (w.binlogIndex + 1) }
  simp only [rotateBinlog]
  generalize writeToBinlogIndex cfg f.index
    { w with binlogIndex := wrap32 (w.binlogIndex + 1) } = r at hi ⊢
  have hr : SameStatistics w r.1 := ⟨hi.stat, hi.changeCount, hi.file⟩
  have ho := hr.trans (openNextWritableBinlog_same cfg f r.1)
  split_ifs
  · exact ho.trans ⟨rfl, rfl, rfl⟩
  · exact ho.trans ⟨rfl, rfl, rfl⟩
  · exact hr.trans ⟨rfl, rfl, rfl⟩

theorem storageBinlogWrite_same (cfg : Config) (f : BinlogFaults) (w : World) (opType : Byte)
    (filename : Bytes) : SameStatistics w (storageBinlogWrite cfg f w opType filename).1 := by
  have hout := storageBinlogWrite_outcome cfg f w opType filename
  generalize storageBinlogWrite cfg f w opType filename = r at hout
  obtain ⟨v, r⟩ := r
  dsimp only at hout ⊢
  cases hout with
  | nullStream => exact ⟨rfl, rfl, rfl⟩
  | refused => exact .refl w
  | died => exact ⟨rfl, rfl, rfl⟩
  | torn => exact ⟨rfl, rfl, rfl⟩
  | logged => exact ⟨rfl, rfl, rfl⟩
  | notUnlocked => exact ⟨rfl, rfl, rfl⟩
  | rotated s =>
    have hf : SameStatistics w (flushed w s.loc (recordText (logRecord f opType filename))) :=
      ⟨rfl, rfl, rfl⟩
    exact hf.trans (rotateBinlog_same cfg f.rotate _)

theorem getMetadata_same (cfg : Config) (env : RequestEnv) (w : World) (filename : Bytes) :
    SameStatistics w (getMetadata cfg env w filename).1 := by
  have hw : SameStatistics w (w.touch (dataPath cfg filename)) := ⟨rfl, rfl, rfl⟩
  cases hx : w.tree.access w.cwd (dataPath cfg filename) with
  | true =>
    simp only [getMetadata, fileExists, hx, Bool.not_true, Bool.false_eq_true, if_false]
    exact hw.trans (getFileContent_same env.read _ _)
  | false =>
    simp only [getMetadata, fileExists, hx, Bool.not_false, if_true]
    exact hw

theorem deleteFile_same (cfg : Config) (env : RequestEnv) (w : World) (filename : Bytes) :
    SameStatistics w (deleteFile cfg env w filename).1 := by
  have h1 := unlink_same env.unlinkData w (dataPath cfg filename)
  simp only [deleteFile]
  generalize unlink env.unlinkData w (dataPath cfg filename) = r1 at h1 ⊢
  have h2 := h1.trans
    (storageBinlogWrite_same cfg env.log r1.1 STORAGE_OP_TYPE_SOURCE_DELETE_FILE filename)
  generalize storageBinlogWrite cfg env.log r1.1 STORAGE_OP_TYPE_SOURCE_DELETE_FILE filename = r2
    at h2 ⊢
  have h3 := h2.trans
    (unlink_same env.unlinkMeta r2.1 (dataPath cfg filename ++ STORAGE_META_FILE_EXT))
  generalize unlink env.unlinkMeta r2.1 (dataPath cfg filename ++ STORAGE_META_FILE_EXT) = r3
    at h3 ⊢
  split_ifs
  · exact h1
  · exact h2
  · exact h3
  · exact h3.trans (storageBinlogWrite_same _ _ _ _ _)

theorem syncDeleteFile_same (cfg : Config) (env : RequestEnv) (w : World) (filename : Bytes) :
    SameStatistics w (syncDeleteFile cfg env w filename).1 := by
  have h1 := unlink_same env.unlinkData w (dataPath cfg filename)
  simp only [syncDeleteFile]
  generalize unlink env.unlinkData w (dataPath cfg filename) = r1 at h1 ⊢
  split
  · split_ifs
    · exact h1.trans (storageBinlogWrite_same _ _ _ _ _)
    · exact h1
  · exact h1.trans (storageBinlogWrite_same _ _ _ _ _)

theorem syncCopyFile_same (cfg : Config) (env : RequestEnv) (protoCmd : Byte) (w : World)
    (req : SyncCopyRequest) : SameStatistics w (syncCopyFile cfg env protoCmd w req).1 := by
  rw [syncCopyFile_eq cfg env protoCmd w req rfl]
  obtain ⟨cs, hcs⟩ := copyStart_eq protoCmd w (cutPath (dataPath cfg req.filename))
  have hw : SameStatistics w (copyStart protoCmd w (cutPath (dataPath cfg req.filename))) := by
    rw [hcs]
    exact ⟨rfl, rfl, rfl⟩
  have h1 := hw.trans (writeToFile_same env.write _ (cutPath (dataPath cfg req.filename)) req.content)
  dsimp only
  split_ifs
  · exact hw
  · exact h1
  · exact h1.trans (storageBinlogWrite_same _ _ _ _ _)

theorem setMetadata_same (cfg : Config) (env : RequestEnv) (w : World) (req : SetMetadataRequest) :
    SameStatistics w (setMetadata cfg env w req).1 := by
  rw [setMetadata_eq]
  split_ifs
  · exact ⟨rfl, rfl, rfl⟩
  · exact ⟨rfl, rfl, rfl⟩

theorem saveMetadata_same (cfg : Config) (env : RequestEnv) (w : World) (u : UploadRequest)
    (full : Bytes) : SameStatistics w (saveMetadata cfg env w u full).1 := by
  simp only [saveMetadata]
  generalize MetadataRecords.storageSortMetadataBuff cfg.qsort env.metaMalloc (u.metaBuff ++ [0]) = q
  have h1 := writeToFile_same env.metaWrite w (full ++ STORAGE_META_FILE_EXT) (q.2.take u.metaBytes)
  split_ifs
  · exact unlink_same env.unlinkData w full
  · exact h1.trans (unlink_same env.unlinkData _ full)
  · exact h1

theorem storageSaveFile_same (cfg : Config) (env : RequestEnv) (w : World) (u : UploadRequest) :
    SameStatistics w (storageSaveFile cfg env w u).1 := by
  obtain ⟨cs, hcs⟩ := genUnusedFilename_world cfg env.clock u.content.length 1024 0 w
  have h0 : SameStatistics w (genUnusedFilename cfg env.clock u.content.length 1024 0 w).1 := by
    rw [hcs]
    exact ⟨rfl, rfl, rfl⟩
  clear hcs
  simp only [storageSaveFile]
  generalize genUnusedFilename cfg env.clock u.content.length 1024 0 w = r at h0
  obtain ⟨v, o⟩ := r
  cases o with
  | none => exact h0
  | some filename =>
    have h1 := h0.trans (writeToFile_same env.write v (dataPath cfg (cstr filename)) u.content)
    simp only [saveFileAs]
    split_ifs
    · exact h1
    · exact h1
    · exact h1.trans (saveMetadata_same _ _ _ _ _)

theorem uploadFile_same (cfg : Config) (env : RequestEnv) (w : World) (u : UploadRequest) :
    SameStatistics w (uploadFile cfg env w u).1 := by
  have h1 := storageSaveFile_same cfg env w u
  simp only [uploadFile]
  generalize storageSaveFile cfg env w u = r at h1 ⊢
  have h2 := h1.trans
    (storageBinlogWrite_same cfg env.log r.1 STORAGE_OP_TYPE_SOURCE_CREATE_FILE r.2.2)
  split_ifs
  · exact h1
  · exact h2
  · exact h2
  · exact h2.trans (storageBinlogWrite_same _ _ _ _ _)

theorem act_same {α : Type} {f : α → World × Option Errno} (h : ∀ a, SameStatistics w (f a).1)
    (req : Except Errno α) : SameStatistics w (act w req f).1 := by
  cases req with
  | error e => exact .refl w
  | ok a => exact h a

theorem handler_same {cmd : Byte} {run : ℤ → Inbound → Outbound → World → Handled}
    (h : handler cfg env cmd = some run) (n : ℤ) (inb : Inbound) (out : Outbound) (w : World) :
    SameStatistics w (run n inb out w).world := by
  cases handles_of_handler h with
  | downloadFile =>
    simp only [storageDownloadFile, withBody, downloadFile]
    split
    · exact .refl w
    · exact getFileContent_same _ _ _
  | getMetadata =>
    simp only [storageGetMetadata, withBody]
    split
    · exact .refl w
    · exact getMetadata_same _ _ _ _
  | uploadFile =>
    simp only [storageUploadFile, withBody]
    split
    · exact .refl w
    · exact uploadFile_same _ _ _ _
  | deleteFile => exact act_same (fun _ => deleteFile_same _ _ _ _) _
  | syncCreateFile => exact act_same (fun _ => syncCopyFile_same _ _ _ _ _) _
  | syncDeleteFile => exact act_same (fun _ => syncDeleteFile_same _ _ _ _) _
  | syncUpdateFile => exact act_same (fun _ => syncCopyFile_same _ _ _ _ _) _
  | setMetadata => exact act_same (fun _ => setMetadata_same _ _ _ _) _

theorem isServed_eq (cfg : Config) (env : RequestEnv) (cmd : Byte) :
    isServed cmd = (handler cfg env cmd).isSome := by
  cases hf : handler cfg env cmd with
  | some f => cases handles_of_handler hf <;> rfl
  | none =>
    unfold handler at hf
    split_ifs at hf with h1 h2 h3 h4 h5 h6 h7 h8
    simp [isServed, kindOf, h1, h2, h3, h4, h5, h6, h7, h8]

/-- What a session finds in a turn that `serve` makes of a header. -/
def foundIn (env : ThreadEnv) (header : TrackerHeader) (h : Handled) : Findings :=
  ⟨some header.cmd, h.world, h.result, env.now, env.stat⟩

/-- The moves of one session, nobody else moving in between. -/
def moves (f : Findings) (k : ℕ) (w : World) : World × Pc :=
  (fun x => sessionMove x.1 f x.2)^[k] (w, .ready)

theorem moves_succ (f : Findings) (k : ℕ) (w : World) :
    moves f (k + 1) w = sessionMove (moves f k w).1 f (moves f k w).2 :=
  Function.iterate_succ_apply' _ k _

/-- At most six moves make the turn of `serve`. -/
theorem serve_eq_moves {env : ThreadEnv} {run : ℤ → Inbound → Outbound → World → Handled}
    {header : TrackerHeader} (hrun : handler cfg env.request header.cmd = some run)
    (start body : Inbound) (out : Outbound) (w : World) :
    let h := run header.nInPackLen body out { w with stat := countTotal header.cmd w.stat }
    ∃ k, k ≤ 6 ∧ (serve cfg env start body header out w).2 =
        (if (moves (foundIn env header h) k w).2 = .ended then none
          else some (h.inbound, h.outbound, (moves (foundIn env header h) k w).1)) ∧
      ((moves (foundIn env header h) k w).2 = .ready ∨
        (moves (foundIn env header h) k w).2 = .ended) := by
  intro h
  have hserved : isServed header.cmd = true := by
    rw [isServed_eq cfg env.request, hrun]
    rfl
  have hsame := handler_same hrun header.nInPackLen body out
    { w with stat := countTotal header.cmd w.stat }
  have hserve : (serve cfg env start body header out w).2 = if h.result ≠ 0 then none
      else
        let r := checkAndWriteToStatFile env.stat
          { h.world with stat := countSuccess header.cmd env.now h.world.stat }
        if r.2 then some (h.inbound, h.outbound, r.1) else none := by
    simp only [serve, hrun, h]
  have hkeep : keepStatistics { w with stat := countTotal header.cmd w.stat } h.world = h.world :=
    hsame.keep
  rw [hserve]
  clear hserve hsame
  clear_value h
  by_cases hr : h.result = 0
  · set u : World := { h.world with stat := countSuccess header.cmd env.now h.world.stat } with hu
    set v : World := { u with statChangeCount := wrap32 (u.statChangeCount + 1) }
    have hfour : moves (foundIn env header h) 4 w = (u, .stamped) := by
      simp only [moves, Function.iterate_succ, Function.comp_apply, Function.iterate_zero, id_eq,
        sessionMove, foundIn, hserved, if_true, hkeep, hr, ne_eq, not_true_eq_false, if_false,
        hu, countSuccess_eq]
    have hfive : moves (foundIn env header h) 5 w =
        (v, if v.statChangeCount % STORAGE_SYNC_STAT_FILE_FREQ = 0 then .saving else .ready) := by
      rw [moves_succ _ 4, hfour]
      rfl
    have hcheck : checkAndWriteToStatFile env.stat u =
          if v.statChangeCount % STORAGE_SYNC_STAT_FILE_FREQ = 0 then
            ((storageWriteToStatFile env.stat v).1,
              decide ((storageWriteToStatFile env.stat v).2 = 0))
          else (v, true) := rfl
    rw [hcheck]
    by_cases hfreq : v.statChangeCount % STORAGE_SYNC_STAT_FILE_FREQ = 0
    · rw [if_pos hfreq] at hfive ⊢
      have hsix : moves (foundIn env header h) 6 w =
          ((storageWriteToStatFile env.stat v).1,
            if (storageWriteToStatFile env.stat v).2 ≠ 0 then .ended else .ready) := by
        rw [moves_succ _ 5, hfive]
        rfl
      refine ⟨6, le_rfl, ?_, ?_⟩
      · rw [hsix]
        by_cases hw : (storageWriteToStatFile env.stat v).2 = 0 <;> simp [hr, hw]
      · rw [hsix]
        by_cases hw : (storageWriteToStatFile env.stat v).2 = 0 <;> simp [hw]
    · rw [if_neg hfreq] at hfive ⊢
      refine ⟨5, by norm_num, ?_, ?_⟩
      · rw [hfive]
        simp [hr]
      · rw [hfive]
        exact .inl rfl
  · have htwo : (moves (foundIn env header h) 2 w).2 = .ended := by
      simp only [moves, Function.iterate_succ, Function.comp_apply, Function.iterate_zero, id_eq,
        sessionMove, foundIn, hserved, if_true, hr, ne_eq, not_false_eq_true]
    refine ⟨2, by norm_num, ?_, .inr htwo⟩
    rw [htwo]
    simp [hr]

end Handlers

end DemoStorage.StatisticsSessions
