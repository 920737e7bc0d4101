import DemoStorage.SocketTransfers
import DemoStorage.BinlogWriting

/-!
# The request handlers

Each handler checks the declared length, receives the body, checks it, acts on the store
and sends a reply. The four requests that consist of a group name and a file name share
their receiving part; so do the two replies with a file and the replies that are a header
only. A handler returns 0 when the connection is to be kept.
-/

namespace DemoStorage.RequestHandlers
open ByteStrings LexicalPaths PosixFileTree SocketTransfers MetadataRecords GeneratedNames
open DaemonState BinlogWriting

def STORAGE_PROTO_CMD_UPLOAD_FILE : Byte := 11
def STORAGE_PROTO_CMD_DELETE_FILE : Byte := 12
def STORAGE_PROTO_CMD_SET_METADATA : Byte := 13
def STORAGE_PROTO_CMD_DOWNLOAD_FILE : Byte := 14
def STORAGE_PROTO_CMD_GET_METADATA : Byte := 15
def STORAGE_PROTO_CMD_SYNC_CREATE_FILE : Byte := 16
def STORAGE_PROTO_CMD_SYNC_DELETE_FILE : Byte := 17
def STORAGE_PROTO_CMD_SYNC_UPDATE_FILE : Byte := 18
def STORAGE_PROTO_CMD_RESP : Byte := 10
def TRACKER_PROTO_CMD_STORAGE_QUIT : Byte := 82

def STORAGE_SET_METADATA_FLAG_OVERWRITE : Byte := 79
def STORAGE_SET_METADATA_FLAG_MERGE : Byte := 77

def TRACKER_PROTO_PKG_LEN_SIZE : ℕ := 9

/-- `sizeof` of a pointer on a 64-bit machine. -/
def sizeofPointer : ℤ := 8

/-- `sizeof(in_buff)` of the handlers with a group name and a file name. -/
def sizeofInBuff : ℤ := FDFS_GROUP_NAME_MAX_LEN + 32

/-- What the calls of one request do beyond the state: failures, the memory they find and
the values the system hands them. -/
structure RequestEnv where
  mallocFails : Bool := false
  mallocErrno : Errno := ENOMEM
  heap : ℕ → Byte := fun _ => 0
  stack : ℕ → Byte := fun _ => 0
  /-- `errno` as read behind the logging of the handler's own failures -/
  errno : Errno := 0
  sendErrno : Errno := 0
  write : WriteFaults := {}
  metaMalloc : Bool := false
  metaWrite : WriteFaults := {}
  unlinkData : Option Errno := none
  unlinkMeta : Option Errno := none
  read : ReadFaults := {}
  log : BinlogFaults := {}
  metaLog : BinlogFaults := {}
  /-- `time(NULL)` and `rand()` of each attempt to find a name -/
  clock : ℕ → ℤ × ℤ := fun _ => (0, 0)
  /-- the uninitialised `sync_flag` -/
  syncFlag : Byte := 0

structure Handled where
  inbound : Inbound
  outbound : Outbound
  world : World
  result : Errno

/-- A field of `n` bytes with a text written at its start. -/
def fillField (n : ℕ) (text : Bytes) (old : ℕ → Byte) : Bytes :=
  text.take n ++ (List.range (n - text.length)).map fun i => old (text.length + i)

@[simp] theorem length_fillField (n : ℕ) (text : Bytes) (old : ℕ → Byte) :
    (fillField n text old).length = n := by
  simp only [fillField, List.length_append, List.length_take, List.length_map, List.length_range]
  omega

/-- The reply header; the bytes behind the length's NUL are those the stack held. -/
def replyHeader (env : RequestEnv) (pkgLen : ℤ) (status : Errno) : Bytes :=
  fillField TRACKER_PROTO_PKG_LEN_SIZE (hexadecimal pkgLen ++ [0]) env.stack ++
    [STORAGE_PROTO_CMD_RESP, status]

def receive (env : RequestEnv) (inb : Inbound) (size : ℤ) : Inbound × Except Errno Bytes :=
  let r := tcprecvdata inb size
  (r.rest, if r.result ≠ 1 then .error (errnoOr env.errno EPIPE) else .ok r.data)

/-- What a handler leaves besides the rest of the inbound connection. -/
def Handled.outcome (h : Handled) : Outbound × World × Errno := (h.outbound, h.world, h.result)

/-- A handler: receive the body or an error status, and do everything else from that. What it
sends waits for the peer behind the body. -/
def withBody (recv : Inbound × Except Errno Bytes) (out : Outbound)
    (finish : Outbound → Except Errno Bytes → Outbound × World × Errno) : Handled :=
  let r := finish (out.awaiting recv.1) recv.2
  ⟨recv.1, r.1, r.2.1, r.2.2⟩

@[simp] theorem withBody_inbound (recv : Inbound × Except Errno Bytes) (out : Outbound)
    (finish : Outbound → Except Errno Bytes → Outbound × World × Errno) :
    (withBody recv out finish).inbound = recv.1 := rfl

@[simp] theorem withBody_outcome (recv : Inbound × Except Errno Bytes) (out : Outbound)
    (finish : Outbound → Except Errno Bytes → Outbound × World × Errno) :
    (withBody recv out finish).outcome = finish (out.awaiting recv.1) recv.2 := rfl

/-- Run the action of a request that passed its checks, or keep the error status. An action
without a status has ended the process. -/
def act {α : Type} (w : World) (req : Except Errno α) (f : α → World × Option Errno) :
    World × Option Errno :=
  match req with
  | .error e => (w, some e)
  | .ok a => f a

/-- The signal that ends a process; a handler that is ended by it returns nothing. -/
def SIGSEGV : Errno := 11

/-- Send the reply to a status. Without a status there is nobody left to send one. -/
def replyWhenAlive (out : Outbound) (status : Option Errno) (send : Errno → Outbound × Errno) :
    Outbound × Errno :=
  match status with
  | none => (out, SIGSEGV)
  | some status => send status

@[simp] theorem replyWhenAlive_none (out : Outbound) (send : Errno → Outbound × Errno) :
    replyWhenAlive out none send = (out, SIGSEGV) := rfl

@[simp] theorem replyWhenAlive_some (out : Outbound) (status : Errno)
    (send : Errno → Outbound × Errno) : replyWhenAlive out (some status) send = send status := rfl

/-- A handler that returns 0 had a status to send. -/
theorem replyWhenAlive_eq_zero {out : Outbound} {status : Option Errno}
    {send : Errno → Outbound × Errno} (h : (replyWhenAlive out status send).2 = 0) :
    ∃ s, status = some s ∧ (send s).2 = 0 := by
  cases status with
  | none => exact absurd (show SIGSEGV = 0 from h) (by decide)
  | some s => exact ⟨s, rfl, h⟩

/-- Send a header without a body. -/
def sendHeaderReply (env : RequestEnv) (out : Outbound) (status : Errno) : Outbound × Errno :=
  let s := tcpsenddata out (some (replyHeader env 0 status))
  (s.2, if s.1 ≠ 1 then errnoOr env.sendErrno EPIPE else status)

/-- Send a header and, when the status is 0, the file behind it. -/
def sendFileReply (env : RequestEnv) (out : Outbound) (status : Errno) (fileBuff : Option Bytes) :
    Outbound × Errno :=
  let s := tcpsenddata out (some (replyHeader env (fileBuff.getD []).length status))
  if s.1 ≠ 1 then (s.2, errnoOr env.sendErrno EPIPE)
  else if status ≠ 0 then (s.2, status)
  else
    let s := tcpsenddata s.2 fileBuff
    (s.2, if s.1 ≠ 1 then errnoOr env.sendErrno EPIPE else status)

section GroupRequests

/-- Check the length and receive the body of a request with a group name and a file name. -/
def recvGroupRequest (env : RequestEnv) (nInPackLen : ℤ) (inb : Inbound) :
    Inbound × Except Errno Bytes :=
  if nInPackLen ≤ FDFS_GROUP_NAME_MAX_LEN then (inb, .error EINVAL)
  else if sizeofInBuff ≤ nInPackLen then (inb, .error EINVAL)
  else receive env inb nInPackLen

/-- The file name of the body, or the status when the group name is not the server's. -/
def groupFilename (cfg : Config) (mismatch : Errno) (inBuff : Bytes) : Except Errno Bytes :=
  if cstr (inBuff.take FDFS_GROUP_NAME_MAX_LEN.toNat) ≠ cfg.groupName then .error mismatch
  else .ok (cstr (inBuff.drop FDFS_GROUP_NAME_MAX_LEN.toNat))

def downloadFile (cfg : Config) (env : RequestEnv) (w : World) (filename : Bytes) :
    World × Errno × Option Bytes :=
  getFileContent env.read w (dataPath cfg filename)

def storageDownloadFile (cfg : Config) (env : RequestEnv) (nInPackLen : ℤ) (inb : Inbound)
    (out : Outbound) (w : World) : Handled :=
  withBody (recvGroupRequest env nInPackLen inb) out fun out req =>
    -- the status of a wrong group name is read from errno here, unlike in the other handlers
    let (w, status, fileBuff) :=
      match req.bind (groupFilename cfg (errnoOr env.errno EINVAL)) with
      | .error e => (w, e, none)
      | .ok filename => downloadFile cfg env w filename
    let (out, result) := sendFileReply env out status fileBuff
    (out, w, result)

def deleteFile (cfg : Config) (env : RequestEnv) (w : World) (filename : Bytes) :
    World × Option Errno :=
  let full := dataPath cfg filename
  let (w, failed) := unlink env.unlinkData w full
  if failed.isSome then (w, some (errnoOr env.errno EACCES))
  else
    let (w, r) := storageBinlogWrite cfg env.log w STORAGE_OP_TYPE_SOURCE_DELETE_FILE filename
    if r ≠ some 0 then (w, r)
    else
      let (w, failed) := unlink env.unlinkMeta w (full ++ STORAGE_META_FILE_EXT)
      -- errno is tested behind the logging of the failure
      if failed.isSome ∧ env.errno ≠ ENOENT then (w, some (errnoOr env.errno EACCES))
      else storageBinlogWrite cfg env.metaLog w STORAGE_OP_TYPE_SOURCE_DELETE_FILE
        (filename ++ STORAGE_META_FILE_EXT)

def storageDeleteFile (cfg : Config) (env : RequestEnv) (nInPackLen : ℤ) (inb : Inbound)
    (out : Outbound) (w : World) : Handled :=
  withBody (recvGroupRequest env nInPackLen inb) out fun out req =>
    let (w, status) := act w (req.bind (groupFilename cfg EINVAL)) (deleteFile cfg env w)
    let (out, result) := replyWhenAlive out status (sendHeaderReply env out)
    (out, w, result)

def getMetadata (cfg : Config) (env : RequestEnv) (w : World) (filename : Bytes) :
    World × Errno × Option Bytes :=
  let full := dataPath cfg filename
  let (w, exist) := fileExists w full
  if !exist then (w, ENOENT, none)
  else
    let (w, status, fileBuff) := getFileContent env.read w (full ++ STORAGE_META_FILE_EXT)
    (w, if status = ENOENT then 0 else status, fileBuff)

def storageGetMetadata (cfg : Config) (env : RequestEnv) (nInPackLen : ℤ) (inb : Inbound)
    (out : Outbound) (w : World) : Handled :=
  withBody (recvGroupRequest env nInPackLen inb) out fun out req =>
    let (w, status, fileBuff) := match req.bind (groupFilename cfg EINVAL) with
      | .error e => (w, e, none)
      | .ok filename => getMetadata cfg env w filename
    let (out, result) := sendFileReply env out status fileBuff
    (out, w, result)

def syncDeleteFile (cfg : Config) (env : RequestEnv) (w : World) (filename : Bytes) :
    World × Option Errno :=
  let (w, failed) := unlink env.unlinkData w (dataPath cfg filename)
  match failed with
  | some e =>
    -- an absent file is logged as deleted; errno is tested before the logging here
    if e = ENOENT then
      storageBinlogWrite cfg env.log w STORAGE_OP_TYPE_REPLICA_DELETE_FILE filename
    else (w, some (errnoOr env.errno EACCES))
  | none => storageBinlogWrite cfg env.log w STORAGE_OP_TYPE_REPLICA_DELETE_FILE filename

def storageSyncDeleteFile (cfg : Config) (env : RequestEnv) (nInPackLen : ℤ) (inb : Inbound)
    (out : Outbound) (w : World) : Handled :=
  withBody (recvGroupRequest env nInPackLen inb) out fun out req =>
    let (w, status) := act w (req.bind (groupFilename cfg EINVAL)) (syncDeleteFile cfg env w)
    let (out, result) := replyWhenAlive out status (sendHeaderReply env out)
    (out, w, result)

end GroupRequests

section AllocatedRequests

/-- Check the length, allocate the package and receive `size` bytes into it. -/
def recvAllocated (env : RequestEnv) (minLen size nInPackLen : ℤ) (inb : Inbound) :
    Inbound × Except Errno Bytes :=
  if nInPackLen ≤ minLen then (inb, .error EINVAL)
  else if env.mallocFails then (inb, .error (errnoOr env.mallocErrno ENOMEM))
  else receive env inb size

structure SyncCopyRequest where
  filename : Bytes
  content : Bytes
  deriving DecidableEq

/-- `inBuff` is the package without the NUL the handler puts behind it. -/
def parseSyncCopy (cfg : Config) (nInPackLen : ℤ) (inBuff : Bytes) : Except Errno SyncCopyRequest :=
  let buff := inBuff ++ [0]
  let filenameLen := wrap32 (strtol 16 buff)
  let fileBytes := wrap32 (strtol 16 (buff.drop TRACKER_PROTO_PKG_LEN_SIZE))
  if filenameLen ≤ 0 ∨ 128 ≤ filenameLen then .error EPIPE
  else if fileBytes < 0 then .error EPIPE
  else if cstr ((buff.drop 18).take 16) ≠ cfg.groupName then .error EINVAL
  else if fileBytes ≠ nInPackLen - (34 + filenameLen) then .error EPIPE
  else .ok {
    filename := cstr ((buff.drop 34).take filenameLen.toNat)
    content := (buff.drop (34 + filenameLen.toNat)).take fileBytes.toNat }

/-- The operation a copy is logged with. -/
def copyOp (protoCmd : Byte) : Byte :=
  if protoCmd = STORAGE_PROTO_CMD_SYNC_CREATE_FILE then STORAGE_OP_TYPE_REPLICA_CREATE_FILE
  else STORAGE_OP_TYPE_REPLICA_UPDATE_FILE

def syncCopyFile (cfg : Config) (env : RequestEnv) (protoCmd : Byte) (w : World)
    (req : SyncCopyRequest) : World × Option Errno :=
  let full := cutPath (dataPath cfg req.filename)
  let (w, exist) :=
    if protoCmd = STORAGE_PROTO_CMD_SYNC_CREATE_FILE then fileExists w full else (w, false)
  if exist then (w, some EEXIST)
  else
    let (w, r) := writeToFile env.write w full req.content
    if r ≠ 0 then (w, some r)
    else storageBinlogWrite cfg env.log w (copyOp protoCmd) req.filename

/-- The state in which a copy is written: behind the existence test, if there is one. -/
def copyStart (protoCmd : Byte) (w : World) (full : Bytes) : World :=
  if protoCmd = STORAGE_PROTO_CMD_SYNC_CREATE_FILE then w.touch full else w

/-- A copy stops at an existing file it was to create, and else writes and logs. -/
theorem syncCopyFile_eq (cfg : Config) (env : RequestEnv) (protoCmd : Byte) (w : World)
    (req : SyncCopyRequest) {full : Bytes} (hfull : cutPath (dataPath cfg req.filename) = full) :
    syncCopyFile cfg env protoCmd w req =
      if protoCmd = STORAGE_PROTO_CMD_SYNC_CREATE_FILE ∧ w.tree.access w.cwd full = true then
        (copyStart protoCmd w full, some EEXIST)
      else
        let x := writeToFile env.write (copyStart protoCmd w full) full req.content
        if x.2 ≠ 0 then (x.1, some x.2)
        else storageBinlogWrite cfg env.log x.1 (copyOp protoCmd) req.filename := by
  by_cases hc : protoCmd = STORAGE_PROTO_CMD_SYNC_CREATE_FILE
  · by_cases hx : w.tree.access w.cwd full = true
    · simp [syncCopyFile, hfull, fileExists, hc, hx, copyStart]
    · simp [syncCopyFile, hfull, fileExists, hc, hx, copyStart, copyOp]
  · simp [syncCopyFile, hfull, hc, copyStart, copyOp]

theorem copyStart_eq (protoCmd : Byte) (w : World) (full : Bytes) :
    ∃ cs, copyStart protoCmd w full = { w with calls := cs } := by
  unfold copyStart
  split
  · exact ⟨w.calls ++ [full], rfl⟩
  · exact ⟨w.calls, rfl⟩

def storageSyncCopyFile (cfg : Config) (env : RequestEnv) (protoCmd : Byte) (nInPackLen : ℤ)
    (inb : Inbound) (out : Outbound) (w : World) : Handled :=
  withBody (recvAllocated env 34 nInPackLen nInPackLen inb) out fun out req =>
    let (w, status) := act w (req.bind (parseSyncCopy cfg nInPackLen))
      (syncCopyFile cfg env protoCmd w)
    let (out, result) := replyWhenAlive out status fun status =>
      let s := tcpsenddata out (some (replyHeader env 0 status))
      -- whatever the reason, a status EEXIST keeps the connection
      (s.2, if s.1 ≠ 1 then errnoOr env.sendErrno EPIPE else if status = EEXIST then 0
        else status)
    (out, w, result)

structure SetMetadataRequest where
  filename : Bytes
  opFlag : Byte
  metaBuff : Bytes
  deriving DecidableEq

def parseSetMetadata (cfg : Config) (nInPackLen : ℤ) (inBuff : Bytes) :
    Except Errno SetMetadataRequest :=
  let buff := inBuff ++ [0]
  let filenameLen := wrap32 (strtol 16 buff)
  let metaBytes := wrap32 (strtol 16 (buff.drop TRACKER_PROTO_PKG_LEN_SIZE))
  let opFlag := (buff.drop 18).headD 0
  if filenameLen ≤ 0 ∨ 32 ≤ filenameLen then .error EINVAL
  else if opFlag ≠ STORAGE_SET_METADATA_FLAG_OVERWRITE ∧
      opFlag ≠ STORAGE_SET_METADATA_FLAG_MERGE then .error EINVAL
  else if metaBytes < 0 ∨ metaBytes ≠ nInPackLen - (35 + filenameLen) then .error EINVAL
  else if cstr ((buff.drop 19).take 16) ≠ cfg.groupName then .error EINVAL
  else .ok {
    filename := cstr ((buff.drop 35).take filenameLen.toNat)
    opFlag := opFlag
    metaBuff := (buff.drop (35 + filenameLen.toNat)).take metaBytes.toNat }

/-- An unfinished stub in the source. As the makefile builds it, it prints a line number as a
string and does not return: the process dies. -/
def storageDoSetMetadata (w : World) (_fullMetaFilename _metaBuff : Bytes) (_opFlag : Byte) :
    World × Option Errno := ({ w with killed := true }, none)

def setMetadata (cfg : Config) (env : RequestEnv) (w : World) (req : SetMetadataRequest) :
    World × Option Errno :=
  let full := dataPath cfg req.filename
  let (w, exist) := fileExists w full
  if !exist then (w, some ENOENT)
  else
    match storageDoSetMetadata w (full ++ STORAGE_META_FILE_EXT) req.metaBuff req.opFlag with
    | (w, none) => (w, none)
    | (w, some r) =>
      if r ≠ 0 then (w, some r)
      else if env.syncFlag ≠ 0 then
        storageBinlogWrite cfg env.log w env.syncFlag (req.filename ++ STORAGE_META_FILE_EXT)
      else (w, some r)

/-- Metadata for a file that is there end the process. -/
theorem setMetadata_eq (cfg : Config) (env : RequestEnv) (w : World) (req : SetMetadataRequest) :
    setMetadata cfg env w req =
      if w.tree.access w.cwd (dataPath cfg req.filename) = true then
        ({ w.touch (dataPath cfg req.filename) with killed := true }, none)
      else (w.touch (dataPath cfg req.filename), some ENOENT) := by
  cases hx : w.tree.access w.cwd (dataPath cfg req.filename) with
  | true => simp [setMetadata, fileExists, hx, storageDoSetMetadata]
  | false => simp [setMetadata, fileExists, hx]

def storageSetMetadata (cfg : Config) (env : RequestEnv) (nInPackLen : ℤ) (inb : Inbound)
    (out : Outbound) (w : World) : Handled :=
  withBody (recvAllocated env 35 nInPackLen nInPackLen inb) out fun out req =>
    let (w, status) := act w (req.bind (parseSetMetadata cfg nInPackLen)) (setMetadata cfg env w)
    let (out, result) := replyWhenAlive out status (sendHeaderReply env out)
    (out, w, result)

structure UploadRequest where
  metaBytes : ℕ
  metaBuff : Bytes
  content : Bytes
  deriving DecidableEq

/-- `inBuff` is the package without the NUL the handler puts behind it. -/
def parseUpload (nInPackLen : ℤ) (inBuff : Bytes) : Except Errno UploadRequest :=
  let buff := inBuff ++ [0]
  let metaBytes := wrap32 (strtol 16 buff)
  let fileBytes := wrap32 (strtol 16 (buff.drop TRACKER_PROTO_PKG_LEN_SIZE))
  if metaBytes < 0 then .error EINVAL
  else if fileBytes < 0 ∨ fileBytes ≠ wrap32 (nInPackLen - wrap32 (18 + metaBytes + 1)) then
    .error EINVAL
  else .ok {
    metaBytes := metaBytes.toNat
    metaBuff := (buff.drop 18).take metaBytes.toNat
    content := (buff.drop (18 + metaBytes.toNat + 1)).take fileBytes.toNat }

/-- Look for a generated name that no file has yet, with `k` attempts left. -/
def genUnusedFilename (cfg : Config) (clock : ℕ → ℤ × ℤ) (fileSize : ℤ) :
    ℕ → ℕ → World → World × Option Bytes
  | 0, _, w => (w, none)
  | k + 1, i, w =>
    let filename := storageGenFilename cfg.base64 (clock i).1 (clock i).2 fileSize
    let r := fileExists w (dataPath cfg (cstr filename))
    if r.2 then genUnusedFilename cfg clock fileSize k (i + 1) r.1 else (r.1, some filename)

/-- Write the sorted metadata, or remove the data file again. -/
def saveMetadata (cfg : Config) (env : RequestEnv) (w : World) (u : UploadRequest) (full : Bytes) :
    World × Errno :=
  let (r, metaBuff) := storageSortMetadataBuff cfg.qsort env.metaMalloc (u.metaBuff ++ [0])
  if r ≠ 0 then ((unlink env.unlinkData w full).1, r)
  else
    let (w, r) := writeToFile env.metaWrite w (full ++ STORAGE_META_FILE_EXT)
      (metaBuff.take u.metaBytes)
    if r ≠ 0 then ((unlink env.unlinkData w full).1, r) else (w, 0)

/-- The files of an upload under the path of its name. -/
def saveFileAs (cfg : Config) (env : RequestEnv) (w : World) (u : UploadRequest) (full : Bytes) :
    World × Errno :=
  let (w, r) := writeToFile env.write w full u.content
  if r ≠ 0 then (w, r) else if u.metaBytes = 0 then (w, 0) else saveMetadata cfg env w u full

/-- Result and file name; the name is cleared on every failure. -/
def storageSaveFile (cfg : Config) (env : RequestEnv) (w : World) (u : UploadRequest) :
    World × Errno × Bytes :=
  match genUnusedFilename cfg env.clock u.content.length 1024 0 w with
  | (w, none) => (w, ENOENT, [])
  | (w, some filename) =>
    let (w, r) := saveFileAs cfg env w u (dataPath cfg (cstr filename))
    (w, r, if r = 0 then filename else [])

def uploadFile (cfg : Config) (env : RequestEnv) (w : World) (u : UploadRequest) :
    World × Option Errno × Bytes :=
  let (w, r, filename) := storageSaveFile cfg env w u
  if r ≠ 0 then (w, some r, filename)
  else
    let (w, r) := storageBinlogWrite cfg env.log w STORAGE_OP_TYPE_SOURCE_CREATE_FILE filename
    if r ≠ some 0 then (w, r, filename)
    else if u.metaBytes = 0 then (w, r, filename)
    else
      let (w, r) := storageBinlogWrite cfg env.metaLog w STORAGE_OP_TYPE_SOURCE_CREATE_FILE
        (cstr filename ++ STORAGE_META_FILE_EXT)
      (w, r, filename)

/-- The allocated package once `sizeof(in_buff)` bytes have been received into it: what lies
behind them is what the heap held. -/
def uploadBuffer (env : RequestEnv) (nInPackLen : ℤ) (received : Bytes) : Bytes :=
  fillField nInPackLen.toNat received env.heap

def storageUploadFile (cfg : Config) (env : RequestEnv) (nInPackLen : ℤ) (inb : Inbound)
    (out : Outbound) (w : World) : Handled :=
  withBody (recvAllocated env 0 sizeofPointer nInPackLen inb) out fun out req =>
    let (w, status, filename) :=
      match req.bind fun data => parseUpload nInPackLen (uploadBuffer env nInPackLen data) with
      | .error e => (w, some e, [])
      | .ok u => uploadFile cfg env w u
    let (out, result) := replyWhenAlive out status fun status =>
      let reply := if status = 0 then replyHeader env filename.length status ++ filename
        else replyHeader env 0 status
      let s := tcpsenddata out (some reply)
      (s.2, if s.1 ≠ 1 then errnoOr env.sendErrno EPIPE else status)
    (out, w, result)

end AllocatedRequests

end DemoStorage.RequestHandlers
