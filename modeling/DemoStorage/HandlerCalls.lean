import DemoStorage.InterleavedCalls
import DemoStorage.BinlogExclusion
import DemoStorage.ConcurrentUploads
import DemoStorage.StoreSessions

/-!
# The service threads, call by call

The handlers and the loop of a service thread as sequences of calls on the state of the
process, each call one step: a file is tested, opened, written, read or unlinked, a record is
appended, added to the size of the log and released. Sockets and buffers belong to the thread.
A thread that is alone does what the handlers and the loop do.
-/

namespace DemoStorage.HandlerCalls
open ByteStrings PosixFileTree SocketTransfers MetadataRecords GeneratedNames DaemonState
open BinlogWriting BinlogOutcomes BinlogRotation FileEffects RequestHandlers ServiceThread
open InterleavedCalls
open BinlogExclusion (printRecord)
open ConcurrentUploads (openFile writeStream)
open StoreSessions (handledBy)

section Files

def fileExistsCalls (p : Bytes) : Thread World Bool := .atomic fun w => fileExists w p

def unlinkCalls (fault : Option Errno) (p : Bytes) : Thread World (Option Errno) :=
  .atomic fun w => unlink fault w p

/-- `fopen` with mode `wb`. -/
def openToWrite (f : WriteFaults) (p : Bytes) (w : World) : World × Option Loc :=
  match openFile f w.tree w.cwd p with
  | none => (w.touch p, none)
  | some (l, t) => ({ w.touch p with tree := t }, some l)

/-- What is written to a stream reaches its file; a file unlinked meanwhile receives nothing. -/
def writeOpened (f : WriteFaults) (l : Loc) (buff : Bytes) (w : World) : World × Errno :=
  ({ w with tree := writeStream w.tree l (w.tree.content l).isSome (reached f buff) },
    if Reported f buff then errnoOr f.errno ENOENT else 0)

def writeToFileCalls (f : WriteFaults) (p buff : Bytes) : Thread World Errno := do
  match ← .atomic (openToWrite f p) with
  | none => return errnoOr f.errno ENOENT
  | some l => .atomic (writeOpened f l buff)

/-- `fopen` with mode `rb`; a directory can be opened. -/
def openToRead (f : ReadFaults) (p : Bytes) (w : World) : World × Except Errno Loc :=
  (w.touch p, match f.fopen with
    | some e => .error e
    | none => (openedFile f w p).bind fun _ => w.locate p)

/-- The bytes of an open file at the time. -/
def openedContent (l : Loc) (w : World) : Bytes := (w.tree.content l).getD []

/-- Where an open file ends at the time. -/
def sizeOpened (f : ReadFaults) (l : Loc) (w : World) : World × ℤ :=
  (w, if w.tree.isDir l then f.dirEnd else wrap32 (openedContent l w).length)

/-- A read from a directory goes through if it is of no bytes. -/
def readOpened (l : Loc) (fileSize : ℤ) (w : World) : World × Option Bytes :=
  (w, if w.tree.isDir l ∧ fileSize ≠ 0 then none
    else some ((openedContent l w).take fileSize.toNat))

/-- The file is opened, its size is asked for, and then as much of it is read. -/
def getFileContentCalls (f : ReadFaults) (p : Bytes) : Thread World (Errno × Option Bytes) := do
  match ← .atomic (openToRead f p) with
  | .error e => return (errnoOr e ENOENT, none)
  | .ok l => match f.fseek with
    | some e => return (errnoOr e ENOENT, none)
    | none => do
      let fileSize ← .atomic (sizeOpened f l)
      if f.ftell ∨ fileSize < 0 then return (errnoOr f.errno ENOENT, none)
      else match f.malloc with
        | some e => return (errnoOr e ENOMEM, none)
        | none => do
          let read ← .atomic (readOpened l fileSize)
          match f.fread with
          | some e => return (errnoOr e ENOENT, none)
          | none => match read with
            | none => return (EISDIR, none)
            | some buff =>
              if (buff.length : ℤ) ≠ fileSize then return (errnoOr f.errno ENOENT, none)
              else return (0, some buff)

/-- `fileno` of the stream; of none, it is undefined behaviour. -/
def streamOpen (w : World) : World × Bool :=
  match w.fpBinlog with
  | none => ({ w with nullStreamUse := true }, false)
  | some _ => (w, true)

/-- The size of the log goes up; the limit may be reached. -/
def addSize (n : ℕ) (w : World) : World × Bool :=
  ({ w with binlogFileSize := nextSize w n },
    decide (SYNC_BINLOG_FILE_MAX_SIZE ≤ nextSize w n))

def releaseLog (f : BinlogFaults) (record : LogRecord) (r : Errno) (w : World) :
    World × Option Errno :=
  if f.unlock then (w, some (errnoOr f.unlockErrno ENOENT))
  else if r = 0 then ({ w with written := w.written ++ [record] }, some 0)
  else (w, some r)

/-- The record is printed and flushed, and added to the size of the log. -/
def appendRecordCalls (cfg : Config) (c : BinlogCall) : Thread World (Option Errno) := do
  match ← .atomic (printRecord · c) with
  | .error e => return e
  | .ok () => do
    let full ← .atomic (addSize c.text.length)
    if full = true then .atomic (rotateBinlog cfg c.faults.rotate) else return some 0

def storageBinlogWriteCalls (cfg : Config) (f : BinlogFaults) (op : Byte) (filename : Bytes) :
    Thread World (Option Errno) := do
  let isOpen ← .atomic streamOpen
  if isOpen = false then return none
  else if f.lock = true then return some (errnoOr f.errno ENOENT)
  else do
    match ← appendRecordCalls cfg ⟨f, op, filename⟩ with
    | none => return none
    | some r => .atomic (releaseLog f (logRecord f op filename) r)

end Files

section Alone
variable {cfg : Config} {w : World} {p : Bytes}

@[simp] theorem fileExistsCalls_alone : (fileExistsCalls p).alone w = fileExists w p := rfl

@[simp] theorem unlinkCalls_alone (fault : Option Errno) :
    (unlinkCalls fault p).alone w = unlink fault w p := rfl

theorem openFile_of_opens {f : WriteFaults} {l : Loc} (h : Opens f w p l) :
    openFile f w.tree w.cwd p = some (l, w.tree.setFile l []) := by
  have hw : w.tree.openWrite w.cwd p true = .ok (l, w.tree.setFile l []) :=
    FileTree.openWrite_truncate h.2.1 h.2.2
  simp [openFile, h.1, hw]

@[simp] theorem writeToFileCalls_alone (f : WriteFaults) (buff : Bytes) :
    (writeToFileCalls f p buff).alone w = writeToFile f w p buff := by
  by_cases ho : ∃ l, Opens f w p l
  · obtain ⟨l, ho⟩ := ho
    have hopen := openFile_of_opens ho
    have hcontent : (w.tree.setFile l []).content l = some [] := by
      rw [FileTree.content_setFile ho.2.2, if_pos rfl]
    rw [writeToFile_eq_stored ho]
    simp [writeToFileCalls, openToWrite, writeOpened, hopen, hcontent, writeStream, stored]
  · have hopen : openFile f w.tree w.cwd p = none := by
      unfold openFile
      split_ifs with hf
      · rfl
      · cases hw : w.tree.openWrite w.cwd p true with
        | error e => rfl
        | ok r =>
          obtain ⟨hl, hh, -⟩ := FileTree.openWrite_ok hw
          exact absurd ⟨r.1, by simpa using hf, hl, hh⟩ ho
    rw [writeToFile_of_not_opens (not_exists.mp ho)]
    simp [writeToFileCalls, openToWrite, hopen]

theorem length_take_wrap32 {b : Bytes} (h : ¬ wrap32 b.length < 0) :
    ((b.take (wrap32 b.length).toNat).length : ℤ) = wrap32 b.length := by
  have hle : wrap32 b.length ≤ b.length := by
    unfold wrap32
    omega
  rw [List.length_take]
  omega

/-- The bytes a read of so many brings, of what was opened. -/
def readFrom (fileSize : ℤ) : Option Bytes → Option Bytes
  | some b => some (b.take fileSize.toNat)
  | none => if fileSize = 0 then some [] else none

/-- What a reader of an open file finds, alone: its end and its bytes at the time it was opened. -/
theorem opened_alone {f : ReadFaults} {l : Loc} {fileSize : ℤ} {content : Option Bytes}
    (hl : w.locate p = .ok l) (h : openedFile f w p = .ok (fileSize, content)) :
    sizeOpened f l (w.touch p) = (w.touch p, fileSize) ∧
      readOpened l fileSize (w.touch p) = (w.touch p, readFrom fileSize content) := by
  have hl' : w.tree.locate w.cwd p = .ok l := hl
  rw [openedFile_eq, hl'] at h
  dsimp only at h
  cases hn : w.tree.node l with
  | none =>
    rw [hn] at h
    cases h
  | some o =>
    rw [hn] at h
    cases o with
    | dir =>
      obtain ⟨rfl, rfl⟩ := Prod.mk.inj (Except.ok.inj h)
      have hdir : w.tree.isDir l = true := by simp [FileTree.isDir, hn]
      have hcontent : w.tree.content l = none := by simp [FileTree.content, hn]
      by_cases h0 : f.dirEnd = 0
      · simp [sizeOpened, readOpened, openedContent, readFrom, hdir, hcontent, h0]
      · simp [sizeOpened, readOpened, readFrom, hdir, h0]
    | file b =>
      obtain ⟨rfl, rfl⟩ := Prod.mk.inj (Except.ok.inj h)
      have hdir : w.tree.isDir l = false := by simp [FileTree.isDir, hn]
      have hcontent : w.tree.content l = some b := by simp [FileTree.content, hn]
      simp [sizeOpened, readOpened, openedContent, readFrom, hdir, hcontent]

@[simp] theorem getFileContentCalls_alone (f : ReadFaults) :
    (getFileContentCalls f p).alone w = getFileContent f w p := by
  unfold getFileContentCalls getFileContent
  simp only [Thread.alone_bind, Thread.alone_atomic, openToRead]
  cases hf : f.fopen with
  | some e => rfl
  | none =>
    cases hr : openedFile f w p with
    | error e => rfl
    | ok opened =>
      obtain ⟨fileSize, content⟩ := opened
      obtain ⟨l, hl, -⟩ := FileTree.access_eq_true.mp (access_of_openedFile hr)
      have hl' : w.locate p = .ok l := hl
      obtain ⟨hsize, hread⟩ := opened_alone hl' hr
      simp only [Except.bind, hl']
      cases f.fseek with
      | some e => rfl
      | none =>
        simp only [Thread.alone_bind, Thread.alone_atomic, hsize, Thread.alone_ite,
          Thread.alone_pure]
        by_cases hneg : f.ftell = true ∨ fileSize < 0
        · rw [if_pos hneg, if_pos hneg]
        · rw [if_neg hneg, if_neg hneg]
          cases f.malloc with
          | some e => rfl
          | none =>
            simp only [Thread.alone_bind, Thread.alone_atomic, hread]
            cases f.fread with
            | some e => rfl
            | none =>
              cases content with
              | some b =>
                have hb := openedFile_some hr
                have hlen : ((b.take fileSize.toNat).length : ℤ) = fileSize := by
                  rw [hb]
                  exact length_take_wrap32 fun h => hneg (.inr (hb ▸ h))
                simp only [readFrom, hlen, ne_eq, not_true_eq_false, if_false, Thread.alone_pure]
              | none =>
                by_cases h0 : fileSize = 0
                · simp [readFrom, h0]
                · simp [readFrom, h0]

theorem appendRecordCalls_alone {s : DaemonState.Stream} (hs : w.fpBinlog = some s)
    (c : BinlogCall) :
    (appendRecordCalls cfg c).alone w = appendRecord cfg c.faults w s c.text := by
  unfold appendRecordCalls appendRecord
  simp only [Thread.alone_bind, Thread.alone_atomic]
  by_cases hp : c.faults.fprintf = true ∨ s.append = false ∨ INT_MAX < (c.text.length : ℤ)
  · have hprint : printRecord w c = ({ w with killed := true }, .error none) := by
      simp only [printRecord, hs, if_pos hp]
    rw [hprint, if_pos hp]
    rfl
  · rw [if_neg hp]
    cases hf : c.faults.fflush with
    | some k =>
      have hprint : printRecord w c = (appended w s.loc (c.text.take k),
          .error (some (errnoOr c.faults.errno ENOENT))) := by
        simp only [printRecord, hs, if_neg hp, hf]
      rw [hprint]
      rfl
    | none =>
      have hprint : printRecord w c = (appended w s.loc c.text, .ok ()) := by
        simp only [printRecord, hs, if_neg hp, hf]
      rw [hprint]
      simp only [Thread.alone_bind, Thread.alone_atomic, addSize, Thread.alone_ite,
        Thread.alone_pure, decide_eq_true_eq]
      rfl

@[simp] theorem storageBinlogWriteCalls_alone (f : BinlogFaults) (op : Byte) (filename : Bytes) :
    (storageBinlogWriteCalls cfg f op filename).alone w = storageBinlogWrite cfg f w op filename := by
  unfold storageBinlogWriteCalls storageBinlogWrite
  cases hs : w.fpBinlog with
  | none => simp [streamOpen, hs]
  | some s =>
    have hopen : streamOpen w = (w, true) := by simp [streamOpen, hs]
    simp only [Thread.alone_bind, Thread.alone_atomic, hopen, Thread.alone_ite, Thread.alone_pure,
      appendRecordCalls_alone hs, Bool.true_eq_false, if_false]
    by_cases hlock : f.lock = true
    · rw [if_pos hlock, if_pos hlock]
    · have hrecord : BinlogCall.text ⟨f, op, filename⟩ = recordText (logRecord f op filename) := rfl
      rw [if_neg hlock, if_neg hlock, hrecord]
      generalize appendRecord cfg f w s (recordText (logRecord f op filename)) = x
      obtain ⟨v, _ | r⟩ := x
      · rfl
      · simp [releaseLog]

end Alone

section Actions
variable (cfg : Config) (env : RequestEnv)

def deleteFileCalls (filename : Bytes) : Thread World (Option Errno) := do
  let failed ← unlinkCalls env.unlinkData (dataPath cfg filename)
  if failed.isSome then return some (errnoOr env.errno EACCES)
  else do
    let r ← storageBinlogWriteCalls cfg env.log STORAGE_OP_TYPE_SOURCE_DELETE_FILE filename
    if r ≠ some 0 then return r
    else do
      let failed ← unlinkCalls env.unlinkMeta (dataPath cfg filename ++ STORAGE_META_FILE_EXT)
      if failed.isSome ∧ env.errno ≠ ENOENT then return some (errnoOr env.errno EACCES)
      else
        storageBinlogWriteCalls cfg env.metaLog STORAGE_OP_TYPE_SOURCE_DELETE_FILE
          (filename ++ STORAGE_META_FILE_EXT)

def syncDeleteFileCalls (filename : Bytes) : Thread World (Option Errno) := do
  let failed ← unlinkCalls env.unlinkData (dataPath cfg filename)
  match failed with
  | some e =>
    if e = ENOENT then
      storageBinlogWriteCalls cfg env.log STORAGE_OP_TYPE_REPLICA_DELETE_FILE filename
    else return some (errnoOr env.errno EACCES)
  | none => storageBinlogWriteCalls cfg env.log STORAGE_OP_TYPE_REPLICA_DELETE_FILE filename

/-- Only a file that is to be created is tested for. -/
def copyTestCalls (protoCmd : Byte) (full : Bytes) : Thread World Bool :=
  if protoCmd = STORAGE_PROTO_CMD_SYNC_CREATE_FILE then fileExistsCalls full else pure false

def syncCopyFileCalls (protoCmd : Byte) (r : SyncCopyRequest) : Thread World (Option Errno) := do
  let full := cutPath (dataPath cfg r.filename)
  let exist ← copyTestCalls protoCmd full
  if exist = true then return some EEXIST
  else do
    let result ← writeToFileCalls env.write full r.content
    if result ≠ 0 then return some result
    else storageBinlogWriteCalls cfg env.log (copyOp protoCmd) r.filename

/-- Nothing follows the stub, which does not return. -/
def setMetadataCalls (r : SetMetadataRequest) : Thread World (Option Errno) := do
  let exist ← fileExistsCalls (dataPath cfg r.filename)
  if exist = false then return some ENOENT
  else
    .atomic fun w =>
      storageDoSetMetadata w (dataPath cfg r.filename ++ STORAGE_META_FILE_EXT) r.metaBuff r.opFlag

def getMetadataCalls (filename : Bytes) : Thread World (Errno × Option Bytes) := do
  let exist ← fileExistsCalls (dataPath cfg filename)
  if exist = false then return (ENOENT, none)
  else do
    let r ← getFileContentCalls env.read (dataPath cfg filename ++ STORAGE_META_FILE_EXT)
    return (if r.1 = ENOENT then 0 else r.1, r.2)

def genUnusedFilenameCalls (fileSize : ℤ) : ℕ → ℕ → Thread World (Option Bytes)
  | 0, _ => return none
  | k + 1, i => do
    let filename := storageGenFilename cfg.base64 (env.clock i).1 (env.clock i).2 fileSize
    let exist ← fileExistsCalls (dataPath cfg (cstr filename))
    if exist = true then genUnusedFilenameCalls fileSize k (i + 1) else return some filename

def saveMetadataCalls (u : UploadRequest) (full : Bytes) : Thread World Errno := do
  let sorted := storageSortMetadataBuff cfg.qsort env.metaMalloc (u.metaBuff ++ [0])
  if sorted.1 ≠ 0 then do
    let _ ← unlinkCalls env.unlinkData full
    return sorted.1
  else do
    let r ← writeToFileCalls env.metaWrite (full ++ STORAGE_META_FILE_EXT)
      (sorted.2.take u.metaBytes)
    if r ≠ 0 then do
      let _ ← unlinkCalls env.unlinkData full
      return r
    else return 0

def saveFileAsCalls (u : UploadRequest) (full : Bytes) : Thread World Errno := do
  let r ← writeToFileCalls env.write full u.content
  if r ≠ 0 then return r
  else if u.metaBytes = 0 then return 0
  else saveMetadataCalls cfg env u full

def storageSaveFileCalls (u : UploadRequest) : Thread World (Errno × Bytes) := do
  let found ← genUnusedFilenameCalls cfg env u.content.length 1024 0
  match found with
  | none => return (ENOENT, [])
  | some filename => do
    let r ← saveFileAsCalls cfg env u (dataPath cfg (cstr filename))
    return (r, if r = 0 then filename else [])

def uploadFileCalls (u : UploadRequest) : Thread World (Option Errno × Bytes) := do
  let saved ← storageSaveFileCalls cfg env u
  if saved.1 ≠ 0 then return (some saved.1, saved.2)
  else do
    let r ← storageBinlogWriteCalls cfg env.log STORAGE_OP_TYPE_SOURCE_CREATE_FILE saved.2
    if r ≠ some 0 then return (r, saved.2)
    else if u.metaBytes = 0 then return (r, saved.2)
    else do
      let r ← storageBinlogWriteCalls cfg env.metaLog STORAGE_OP_TYPE_SOURCE_CREATE_FILE
        (cstr saved.2 ++ STORAGE_META_FILE_EXT)
      return (r, saved.2)

variable {cfg env} {w : World} {filename : Bytes}

@[simp] theorem deleteFileCalls_alone :
    (deleteFileCalls cfg env filename).alone w = deleteFile cfg env w filename := by
  simp only [deleteFileCalls, Thread.alone_bind, Thread.alone_ite, Thread.alone_pure]
  simp only [unlinkCalls_alone, storageBinlogWriteCalls_alone]
  rfl

@[simp] theorem syncDeleteFileCalls_alone :
    (syncDeleteFileCalls cfg env filename).alone w = syncDeleteFile cfg env w filename := by
  simp only [syncDeleteFileCalls, syncDeleteFile, Thread.alone_bind, unlinkCalls_alone]
  cases (unlink env.unlinkData w (dataPath cfg filename)).2 with
  | none => simp
  | some e => simp

@[simp] theorem syncCopyFileCalls_alone (protoCmd : Byte) (r : SyncCopyRequest) :
    (syncCopyFileCalls cfg env protoCmd r).alone w = syncCopyFile cfg env protoCmd w r := by
  simp only [syncCopyFileCalls, copyTestCalls, Thread.alone_bind, Thread.alone_ite,
    Thread.alone_pure]
  simp only [fileExistsCalls_alone, writeToFileCalls_alone, storageBinlogWriteCalls_alone]
  rfl

@[simp] theorem setMetadataCalls_alone (r : SetMetadataRequest) :
    (setMetadataCalls cfg r).alone w = setMetadata cfg env w r := by
  rw [setMetadata_eq]
  by_cases hx : w.tree.access w.cwd (dataPath cfg r.filename) = true
  · simp [setMetadataCalls, fileExists, storageDoSetMetadata, hx]
  · simp [setMetadataCalls, fileExists, hx]

@[simp] theorem getMetadataCalls_alone :
    (getMetadataCalls cfg env filename).alone w = getMetadata cfg env w filename := by
  simp only [getMetadataCalls, Thread.alone_bind, Thread.alone_ite, Thread.alone_pure]
  simp only [fileExistsCalls_alone, getFileContentCalls_alone]
  simp [getMetadata]

@[simp] theorem genUnusedFilenameCalls_alone (fileSize : ℤ) (k i : ℕ) :
    (genUnusedFilenameCalls cfg env fileSize k i).alone w =
      genUnusedFilename cfg env.clock fileSize k i w := by
  induction k generalizing i w with
  | zero => rfl
  | succ k ih =>
    simp only [genUnusedFilenameCalls, Thread.alone_bind, Thread.alone_ite, Thread.alone_pure, ih]
    rfl

@[simp] theorem saveMetadataCalls_alone (u : UploadRequest) (full : Bytes) :
    (saveMetadataCalls cfg env u full).alone w = saveMetadata cfg env w u full := by
  simp only [saveMetadataCalls, Thread.alone_bind, Thread.alone_ite, Thread.alone_pure]
  simp only [unlinkCalls_alone, writeToFileCalls_alone]
  rfl

@[simp] theorem saveFileAsCalls_alone (u : UploadRequest) (full : Bytes) :
    (saveFileAsCalls cfg env u full).alone w = saveFileAs cfg env w u full := by
  simp only [saveFileAsCalls, Thread.alone_bind, Thread.alone_ite, Thread.alone_pure]
  simp only [writeToFileCalls_alone, saveMetadataCalls_alone]
  rfl

@[simp] theorem storageSaveFileCalls_alone (u : UploadRequest) :
    (storageSaveFileCalls cfg env u).alone w = storageSaveFile cfg env w u := by
  simp only [storageSaveFileCalls, storageSaveFile, Thread.alone_bind, genUnusedFilenameCalls_alone]
  generalize genUnusedFilename cfg env.clock u.content.length 1024 0 w = x
  obtain ⟨v, _ | name⟩ := x
  · rfl
  · simp

@[simp] theorem uploadFileCalls_alone (u : UploadRequest) :
    (uploadFileCalls cfg env u).alone w = uploadFile cfg env w u := by
  simp only [uploadFileCalls, Thread.alone_bind, Thread.alone_ite, Thread.alone_pure]
  simp only [storageSaveFileCalls_alone, storageBinlogWriteCalls_alone]
  rfl

end Actions

section Handlers

/-- What a handler leaves of its connection. -/
structure Exchange where
  inbound : Inbound
  outbound : Outbound
  result : Errno

def exchangeOf (h : Handled) : Exchange := ⟨h.inbound, h.outbound, h.result⟩

def withBodyCalls (recv : Inbound × Except Errno Bytes) (out : Outbound)
    (finish : Outbound → Except Errno Bytes → Thread World (Outbound × Errno)) :
    Thread World Exchange := do
  let r ← finish (out.awaiting recv.1) recv.2
  return ⟨recv.1, r.1, r.2⟩

/-- The action of a request that passed its checks, or what refuses it. -/
def actCalls {α ρ : Type} (refused : Errno → ρ) (req : Except Errno α) (f : α → Thread World ρ) :
    Thread World ρ :=
  match req with
  | .error e => return refused e
  | .ok a => f a

variable (cfg : Config) (env : RequestEnv)

def storageDownloadFileCalls (n : ℤ) (inb : Inbound) (out : Outbound) : Thread World Exchange :=
  withBodyCalls (recvGroupRequest env n inb) out fun out req => do
    let r ← actCalls (·, none) (req.bind (groupFilename cfg (errnoOr env.errno EINVAL)))
      fun filename => getFileContentCalls env.read (dataPath cfg filename)
    return sendFileReply env out r.1 r.2

def storageGetMetadataCalls (n : ℤ) (inb : Inbound) (out : Outbound) : Thread World Exchange :=
  withBodyCalls (recvGroupRequest env n inb) out fun out req => do
    let r ← actCalls (·, none) (req.bind (groupFilename cfg EINVAL)) (getMetadataCalls cfg env)
    return sendFileReply env out r.1 r.2

def storageDeleteFileCalls (n : ℤ) (inb : Inbound) (out : Outbound) : Thread World Exchange :=
  withBodyCalls (recvGroupRequest env n inb) out fun out req => do
    let status ← actCalls some (req.bind (groupFilename cfg EINVAL)) (deleteFileCalls cfg env)
    return replyWhenAlive out status (sendHeaderReply env out)

def storageSyncDeleteFileCalls (n : ℤ) (inb : Inbound) (out : Outbound) : Thread World Exchange :=
  withBodyCalls (recvGroupRequest env n inb) out fun out req => do
    let status ← actCalls some (req.bind (groupFilename cfg EINVAL)) (syncDeleteFileCalls cfg env)
    return replyWhenAlive out status (sendHeaderReply env out)

def storageSyncCopyFileCalls (protoCmd : Byte) (n : ℤ) (inb : Inbound) (out : Outbound) :
    Thread World Exchange :=
  withBodyCalls (recvAllocated env 34 n n inb) out fun out req => do
    let status ← actCalls some (req.bind (parseSyncCopy cfg n)) (syncCopyFileCalls cfg env protoCmd)
    return replyWhenAlive out status fun status =>
      let s := tcpsenddata out (some (replyHeader env 0 status))
      (s.2, if s.1 ≠ 1 then errnoOr env.sendErrno EPIPE else if status = EEXIST then 0 else status)

def storageSetMetadataCalls (n : ℤ) (inb : Inbound) (out : Outbound) : Thread World Exchange :=
  withBodyCalls (recvAllocated env 35 n n inb) out fun out req => do
    let status ← actCalls some (req.bind (parseSetMetadata cfg n)) (setMetadataCalls cfg)
    return replyWhenAlive out status (sendHeaderReply env out)

def storageUploadFileCalls (n : ℤ) (inb : Inbound) (out : Outbound) : Thread World Exchange :=
  withBodyCalls (recvAllocated env 0 sizeofPointer n inb) out fun out req => do
    let r ← actCalls (some ·, []) (req.bind fun data => parseUpload n (uploadBuffer env n data))
      (uploadFileCalls cfg env)
    return replyWhenAlive out r.1 fun status =>
      let reply := if status = 0 then replyHeader env r.2.length status ++ r.2
        else replyHeader env 0 status
      let s := tcpsenddata out (some reply)
      (s.2, if s.1 ≠ 1 then errnoOr env.sendErrno EPIPE else status)

/-- The calls of a handler are those of its command. -/
def handlerCalls (cmd : Byte) : Option (ℤ → Inbound → Outbound → Thread World Exchange) :=
  if cmd = STORAGE_PROTO_CMD_DOWNLOAD_FILE then some (storageDownloadFileCalls cfg env)
  else if cmd = STORAGE_PROTO_CMD_GET_METADATA then some (storageGetMetadataCalls cfg env)
  else if cmd = STORAGE_PROTO_CMD_UPLOAD_FILE then some (storageUploadFileCalls cfg env)
  else if cmd = STORAGE_PROTO_CMD_DELETE_FILE then some (storageDeleteFileCalls cfg env)
  else if cmd = STORAGE_PROTO_CMD_SYNC_CREATE_FILE then some (storageSyncCopyFileCalls cfg env cmd)
  else if cmd = STORAGE_PROTO_CMD_SYNC_DELETE_FILE then some (storageSyncDeleteFileCalls cfg env)
  else if cmd = STORAGE_PROTO_CMD_SYNC_UPDATE_FILE then some (storageSyncCopyFileCalls cfg env cmd)
  else if cmd = STORAGE_PROTO_CMD_SET_METADATA then some (storageSetMetadataCalls cfg env)
  else none

variable {cfg env}

/-- Alone, calls leave what a handler leaves. -/
def RunsAs (p : Thread World Exchange) (w : World) (h : Handled) : Prop :=
  p.alone w = (h.world, exchangeOf h)

theorem RunsAs.out {p : Thread World Exchange} {w : World} {h : Handled} (hr : RunsAs p w h) :
    p.alone w = (h.world, exchangeOf h) := hr

theorem withBodyCalls_runs {recv : Inbound × Except Errno Bytes} {out : Outbound}
    {finish : Outbound → Except Errno Bytes → Thread World (Outbound × Errno)}
    {g : Outbound → Except Errno Bytes → Outbound × World × Errno} {w : World}
    (h : (finish (out.awaiting recv.1) recv.2).alone w = ((g (out.awaiting recv.1) recv.2).2.1,
      (g (out.awaiting recv.1) recv.2).1, (g (out.awaiting recv.1) recv.2).2.2)) :
    RunsAs (withBodyCalls recv out finish) w (withBody recv out g) := by
  simp only [RunsAs, withBodyCalls, Thread.alone_bind, Thread.alone_pure, h]
  rfl

theorem actCalls_alone {α ρ : Type} (refused : Errno → ρ) (req : Except Errno α)
    (f : α → Thread World ρ) (w : World) : (actCalls refused req f).alone w =
      match req with
      | .error e => (w, refused e)
      | .ok a => (f a).alone w := by
  cases req <;> rfl

variable {n : ℤ} {inb : Inbound} {out : Outbound} {w : World}

theorem storageDownloadFileCalls_runs :
    RunsAs (storageDownloadFileCalls cfg env n inb out) w
      (storageDownloadFile cfg env n inb out w) := by
  refine withBodyCalls_runs ?_
  simp only [Thread.alone_bind, actCalls_alone, Thread.alone_pure]
  cases (recvGroupRequest env n inb).2.bind (groupFilename cfg (errnoOr env.errno EINVAL)) with
  | error e => rfl
  | ok filename => simp [downloadFile]

theorem storageGetMetadataCalls_runs :
    RunsAs (storageGetMetadataCalls cfg env n inb out) w
      (storageGetMetadata cfg env n inb out w) := by
  refine withBodyCalls_runs ?_
  simp only [Thread.alone_bind, actCalls_alone, Thread.alone_pure]
  cases (recvGroupRequest env n inb).2.bind (groupFilename cfg EINVAL) with
  | error e => rfl
  | ok filename => simp

theorem storageDeleteFileCalls_runs :
    RunsAs (storageDeleteFileCalls cfg env n inb out) w
      (storageDeleteFile cfg env n inb out w) := by
  refine withBodyCalls_runs ?_
  simp only [Thread.alone_bind, actCalls_alone, Thread.alone_pure, deleteFileCalls_alone]
  cases (recvGroupRequest env n inb).2.bind (groupFilename cfg EINVAL) <;> rfl

theorem storageSyncDeleteFileCalls_runs :
    RunsAs (storageSyncDeleteFileCalls cfg env n inb out) w
      (storageSyncDeleteFile cfg env n inb out w) := by
  refine withBodyCalls_runs ?_
  simp only [Thread.alone_bind, actCalls_alone, Thread.alone_pure, syncDeleteFileCalls_alone]
  cases (recvGroupRequest env n inb).2.bind (groupFilename cfg EINVAL) <;> rfl

theorem storageSyncCopyFileCalls_runs (protoCmd : Byte) :
    RunsAs (storageSyncCopyFileCalls cfg env protoCmd n inb out) w
      (storageSyncCopyFile cfg env protoCmd n inb out w) := by
  refine withBodyCalls_runs ?_
  simp only [Thread.alone_bind, actCalls_alone, Thread.alone_pure, syncCopyFileCalls_alone]
  cases (recvAllocated env 34 n n inb).2.bind (parseSyncCopy cfg n) <;> rfl

theorem storageSetMetadataCalls_runs :
    RunsAs (storageSetMetadataCalls cfg env n inb out) w
      (storageSetMetadata cfg env n inb out w) := by
  refine withBodyCalls_runs ?_
  have halone (v : World) (r : SetMetadataRequest) :=
    @setMetadataCalls_alone cfg env v r
  simp only [Thread.alone_bind, actCalls_alone, Thread.alone_pure, halone]
  cases (recvAllocated env 35 n n inb).2.bind (parseSetMetadata cfg n) <;> rfl

theorem storageUploadFileCalls_runs :
    RunsAs (storageUploadFileCalls cfg env n inb out) w
      (storageUploadFile cfg env n inb out w) := by
  refine withBodyCalls_runs ?_
  simp only [Thread.alone_bind, actCalls_alone, Thread.alone_pure, uploadFileCalls_alone]
  cases (recvAllocated env 0 sizeofPointer n inb).2.bind fun data =>
    parseUpload n (uploadBuffer env n data) <;> rfl

theorem handlerCalls_runs (cmd : Byte) : (handler cfg env cmd = none ∧ handlerCalls cfg env cmd = none) ∨
    ∃ f p, handler cfg env cmd = some f ∧ handlerCalls cfg env cmd = some p ∧
      ∀ n inb out w, RunsAs (p n inb out) w (f n inb out w) := by
  unfold handler handlerCalls
  split_ifs
  · exact .inr ⟨_, _, rfl, rfl, fun _ _ _ _ => storageDownloadFileCalls_runs⟩
  · exact .inr ⟨_, _, rfl, rfl, fun _ _ _ _ => storageGetMetadataCalls_runs⟩
  · exact .inr ⟨_, _, rfl, rfl, fun _ _ _ _ => storageUploadFileCalls_runs⟩
  · exact .inr ⟨_, _, rfl, rfl, fun _ _ _ _ => storageDeleteFileCalls_runs⟩
  · exact .inr ⟨_, _, rfl, rfl, fun _ _ _ _ => storageSyncCopyFileCalls_runs _⟩
  · exact .inr ⟨_, _, rfl, rfl, fun _ _ _ _ => storageSyncDeleteFileCalls_runs⟩
  · exact .inr ⟨_, _, rfl, rfl, fun _ _ _ _ => storageSyncCopyFileCalls_runs _⟩
  · exact .inr ⟨_, _, rfl, rfl, fun _ _ _ _ => storageSetMetadataCalls_runs⟩
  · exact .inl ⟨rfl, rfl⟩

end Handlers

section Loop
variable (cfg : Config)

/-- A turn of the loop for a decoded header: what the handler has left, if it has one, and
where the loop goes on. -/
def serveCalls (env : ThreadEnv) (body : Inbound) (header : TrackerHeader) (out : Outbound) :
    Thread World (Option Exchange × Option (Inbound × Outbound)) :=
  match handlerCalls cfg env.request header.cmd with
  | none => return (none, none)
  | some p => do
    .atomic fun w => ({ w with stat := countTotal header.cmd w.stat }, ())
    let x ← p header.nInPackLen body out
    if x.result ≠ 0 then return (some x, none)
    else do
      .atomic fun w => ({ w with stat := countSuccess header.cmd env.now w.stat }, ())
      match ← .atomic (checkAndWriteToStatFile env.stat) with
      | true => return (some x, some (x.inbound, x.outbound))
      | false => return (some x, none)

/-- The loop, with what its handlers have left. -/
def serviceLoopCalls (envs : ℕ → ThreadEnv) :
    ℕ → ℕ → Inbound → Outbound → Thread World (List Exchange)
  | 0, _, _, _ => return []
  | fuel + 1, count, inb, out => do
    match ← .atomic fun w => (w, w.continueFlag) with
    | false => return []
    | true =>
      let r := tcprecvdata inb sizeofHeader
      if r.result = 0 then serviceLoopCalls envs fuel count r.rest out
      else if r.result ≠ 1 then return []
      else do
        let s ← serveCalls cfg (envs count) r.rest (decodeHeader r.data) out
        match s.2 with
        | none => return s.1.toList
        | some (inb', out') => do
          let rest ← serviceLoopCalls envs fuel (count + 1) inb' out'
          return s.1.toList ++ rest

def storageThreadEntranceCalls (envs : ℕ → ThreadEnv) (inb : Inbound) (out : Outbound) :
    Thread World (List Exchange) :=
  serviceLoopCalls cfg envs (turns inb) 0 inb out

variable {cfg} {w : World} {out : Outbound}

theorem serveCalls_alone (env : ThreadEnv) (start body : Inbound) (header : TrackerHeader) :
    let s := serve cfg env start body header out w
    let x := (serveCalls cfg env body header out).alone w
    x.2 = (s.1.handled.map exchangeOf, s.2.map fun t => (t.1, t.2.1)) ∧
      ∀ inb' out' v, s.2 = some (inb', out', v) → x.1 = v := by
  obtain ⟨hf, hp⟩ | ⟨f, p, hf, hp, hruns⟩ := @handlerCalls_runs cfg env.request header.cmd
  · simp [serve, serveCalls, hf, hp]
  · have hrun := hruns header.nInPackLen body out { w with stat := countTotal header.cmd w.stat }
    simp only [serve, serveCalls, hf, hp, Thread.alone_bind, Thread.alone_atomic, hrun.out]
    generalize f header.nInPackLen body out { w with stat := countTotal header.cmd w.stat } = h
    have hresult : (exchangeOf h).result = h.result := rfl
    rw [hresult]
    by_cases h0 : h.result = 0
    · simp only [h0, ne_eq, not_true_eq_false, if_false, Thread.alone_bind, Thread.alone_atomic]
      generalize checkAndWriteToStatFile env.stat
        { h.world with stat := countSuccess header.cmd env.now h.world.stat } = written
      obtain ⟨v, _ | _⟩ := written <;> simp [exchangeOf]
    · simp [h0]

/-- Alone, the loop leaves what the rounds of the loop are. -/
theorem serviceLoopCalls_alone (envs : ℕ → ThreadEnv) (fuel count : ℕ) (inb : Inbound) :
    ((serviceLoopCalls cfg envs fuel count inb out).alone w).2 =
      (handledBy (serviceLoop cfg envs fuel count inb out w)).map exchangeOf := by
  induction fuel generalizing count inb out w with
  | zero => rfl
  | succ fuel ih =>
    simp only [serviceLoopCalls, serviceLoop, Thread.alone_bind, Thread.alone_atomic]
    cases hgo : w.continueFlag
    · rfl
    simp only [Thread.alone_bind, Thread.alone_ite, Thread.alone_pure, Bool.true_eq_false, if_false]
    split_ifs
    · exact ih count _
    · rfl
    · have hserve := @serveCalls_alone cfg w out (envs count) inb (tcprecvdata inb sizeofHeader).rest
        (decodeHeader (tcprecvdata inb sizeofHeader).data)
      generalize serve cfg (envs count) inb (tcprecvdata inb sizeofHeader).rest
        (decodeHeader (tcprecvdata inb sizeofHeader).data) out w = s at hserve ⊢
      generalize (serveCalls cfg (envs count) (tcprecvdata inb sizeofHeader).rest
        (decodeHeader (tcprecvdata inb sizeofHeader).data) out).alone w = x at hserve ⊢
      obtain ⟨v, x⟩ := x
      obtain ⟨rfl, hv⟩ := hserve
      obtain ⟨⟨env, start, header, body, handled⟩, _ | ⟨inb', out', v'⟩⟩ := s
      · cases handled <;> simp [handledBy]
      · obtain rfl : v = v' := hv inb' out' v' rfl
        cases handled <;> simp [handledBy, ih]

end Loop

end DemoStorage.HandlerCalls
