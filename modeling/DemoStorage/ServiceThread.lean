import DemoStorage.RequestHandlers

/-!
# The thread serving one connection

The loop reads a header of eleven bytes, decodes the declared length and hands the rest to
the handler of its command. A timeout of the header read starts the loop again; a failed
read, an unknown command, a handler that does not return 0 and a failure to write the
statistics end it.
-/

namespace DemoStorage.ServiceThread
open ByteStrings PosixFileTree SocketTransfers DaemonState RequestHandlers

def STORAGE_SYNC_STAT_FILE_FREQ : ℤ := 1000

structure TrackerHeader where
  pkgLen : Bytes
  cmd : Byte
  status : Byte
  deriving DecidableEq

def sizeofHeader : ℤ := 11

def decodeHeader (b : Bytes) : TrackerHeader where
  pkgLen := b.take TRACKER_PROTO_PKG_LEN_SIZE
  cmd := (b.drop 9).headD 0
  status := (b.drop 10).headD 0

/-- The declared length; the last byte of the field is overwritten with a NUL. -/
def TrackerHeader.nInPackLen (h : TrackerHeader) : ℤ :=
  wrap32 (strtol 16 (h.pkgLen.take (TRACKER_PROTO_PKG_LEN_SIZE - 1) ++ [0]))

/-- A length field as its reader sees it: the numeral, a NUL, and whatever the stack held. -/
theorem take_fillField (text : Bytes) (old : ℕ → Byte) (h : text.length ≤ 8) :
    ∃ rest, (fillField TRACKER_PROTO_PKG_LEN_SIZE (text ++ [0]) old).take
      (TRACKER_PROTO_PKG_LEN_SIZE - 1) ++ [0] = text ++ 0 :: rest := by
  have htake : (text ++ [0]).take TRACKER_PROTO_PKG_LEN_SIZE = text ++ [0] := by
    apply List.take_of_length_le
    simp [TRACKER_PROTO_PKG_LEN_SIZE]
    omega
  rw [fillField, htake, List.append_assoc, List.take_append]
  have h9 : TRACKER_PROTO_PKG_LEN_SIZE - 1 = 8 := rfl
  rw [h9, List.take_of_length_le h]
  cases hk : 8 - text.length with
  | zero => exact ⟨[], by simp⟩
  | succ k => exact ⟨_, by simp; rfl⟩

/-- The declared length of a header that was printed into a field. -/
theorem nInPackLen_fillField {n : ℤ} (h0 : 0 ≤ n) (h1 : n ≤ INT_MAX) (stack : ℕ → Byte)
    (rest : Bytes) : (decodeHeader (fillField TRACKER_PROTO_PKG_LEN_SIZE
      (hexadecimal n ++ [0]) stack ++ rest)).nInPackLen = n := by
  simp only [INT_MAX] at h1
  obtain ⟨tail, htail⟩ := take_fillField (hexadecimal n) stack (length_hexadecimal_le n)
  rw [TrackerHeader.nInPackLen, decodeHeader, List.take_left' (length_fillField _ _ _), htail,
    strtol_hexadecimal h0 (by omega), wrap32_eq (by omega) (by omega)]

structure StatFaults where
  ftruncate : Bool := false
  lseek : Bool := false
  /-- a short write and its length -/
  write : Option ℕ := none
  fsync : Bool := false
  errno : Errno := 0

def storageWriteToFd (f : StatFaults) (w : World) (buff : Bytes) : World × Errno :=
  if f.ftruncate then (w, errnoOr f.errno ENOENT)
  else if f.lseek then ({ w with statFile := [] }, errnoOr f.errno ENOENT)
  else match f.write with
    | some k => ({ w with statFile := buff.take k },
        if k < buff.length then errnoOr f.errno ENOENT
        else if f.fsync then errnoOr f.errno ENOENT else 0)
    | none => ({ w with statFile := buff }, if f.fsync then errnoOr f.errno ENOENT else 0)

/-- The items of the statistics file in their order. -/
def statItems (s : FDFSStorageStat) : List (Bytes × ℤ) :=
  [(ascii "total_upload_count", s.totalUploadCount),
   (ascii "success_upload_count", s.successUploadCount),
   (ascii "total_download_count", s.totalDownloadCount),
   (ascii "success_download_count", s.successDownloadCount),
   (ascii "last_source_update", wrap32 s.lastSourceUpdate),
   (ascii "last_sync_update", wrap32 s.lastSyncUpdate),
   (ascii "total_set_meta_count", s.totalSetMetaCount),
   (ascii "success_set_meta_count", s.successSetMetaCount),
   (ascii "total_delete_count", s.totalDeleteCount),
   (ascii "success_delete_count", s.successDeleteCount),
   (ascii "total_get_meta_count", s.totalGetMetaCount),
   (ascii "success_get_meta_count", s.successGetMetaCount)]

def storageWriteToStatFile (f : StatFaults) (w : World) : World × Errno :=
  storageWriteToFd f w ((statItems w.stat).flatMap fun i => i.1 ++ 61 :: (decimal i.2 ++ [10]))

/-- `CHECK_AND_WRITE_TO_STAT_FILE`; `false` is its `break`. -/
def checkAndWriteToStatFile (f : StatFaults) (w : World) : World × Bool :=
  let w := { w with statChangeCount := wrap32 (w.statChangeCount + 1) }
  if w.statChangeCount % STORAGE_SYNC_STAT_FILE_FREQ = 0 then
    let r := storageWriteToStatFile f w
    (r.1, r.2 = 0)
  else (w, true)

/-- Counters advanced before the handler runs. -/
def countTotal (cmd : Byte) (s : FDFSStorageStat) : FDFSStorageStat :=
  if cmd = STORAGE_PROTO_CMD_DOWNLOAD_FILE then
    { s with totalDownloadCount := wrap32 (s.totalDownloadCount + 1) }
  else if cmd = STORAGE_PROTO_CMD_GET_METADATA then
    { s with totalGetMetaCount := wrap32 (s.totalGetMetaCount + 1) }
  else if cmd = STORAGE_PROTO_CMD_UPLOAD_FILE then
    { s with totalUploadCount := wrap32 (s.totalUploadCount + 1) }
  else if cmd = STORAGE_PROTO_CMD_DELETE_FILE then
    { s with totalDeleteCount := wrap32 (s.totalDeleteCount + 1) }
  else if cmd = STORAGE_PROTO_CMD_SET_METADATA then
    { s with totalSetMetaCount := wrap32 (s.totalSetMetaCount + 1) }
  else s

/-- Counters advanced behind a handler that returned 0. -/
def countSuccess (cmd : Byte) (now : ℤ) (s : FDFSStorageStat) : FDFSStorageStat :=
  if cmd = STORAGE_PROTO_CMD_DOWNLOAD_FILE then
    { s with successDownloadCount := wrap32 (s.successDownloadCount + 1) }
  else if cmd = STORAGE_PROTO_CMD_GET_METADATA then
    { s with successGetMetaCount := wrap32 (s.successGetMetaCount + 1) }
  else if cmd = STORAGE_PROTO_CMD_UPLOAD_FILE then
    { s with successUploadCount := wrap32 (s.successUploadCount + 1), lastSourceUpdate := now }
  else if cmd = STORAGE_PROTO_CMD_DELETE_FILE then
    { s with successDeleteCount := wrap32 (s.successDeleteCount + 1), lastSourceUpdate := now }
  else if cmd = STORAGE_PROTO_CMD_SET_METADATA then
    { s with successSetMetaCount := wrap32 (s.successSetMetaCount + 1), lastSourceUpdate := now }
  else { s with lastSyncUpdate := now }

/-- The handler of a command; the loop ends on any other. -/
def handler (cfg : Config) (env : RequestEnv) (cmd : Byte) :
    Option (ℤ → Inbound → Outbound → World → Handled) :=
  if cmd = STORAGE_PROTO_CMD_DOWNLOAD_FILE then some (storageDownloadFile cfg env)
  else if cmd = STORAGE_PROTO_CMD_GET_METADATA then some (storageGetMetadata cfg env)
  else if cmd = STORAGE_PROTO_CMD_UPLOAD_FILE then some (storageUploadFile cfg env)
  else if cmd = STORAGE_PROTO_CMD_DELETE_FILE then some (storageDeleteFile cfg env)
  else if cmd = STORAGE_PROTO_CMD_SYNC_CREATE_FILE then some (storageSyncCopyFile cfg env cmd)
  else if cmd = STORAGE_PROTO_CMD_SYNC_DELETE_FILE then some (storageSyncDeleteFile cfg env)
  else if cmd = STORAGE_PROTO_CMD_SYNC_UPDATE_FILE then some (storageSyncCopyFile cfg env cmd)
  else if cmd = STORAGE_PROTO_CMD_SET_METADATA then some (storageSetMetadata cfg env)
  else none

/-- The commands that have a handler, each with its own. -/
inductive Handles (cfg : Config) (env : RequestEnv) :
    Byte → (ℤ → Inbound → Outbound → World → Handled) → Prop where
  | downloadFile : Handles cfg env STORAGE_PROTO_CMD_DOWNLOAD_FILE (storageDownloadFile cfg env)
  | getMetadata : Handles cfg env STORAGE_PROTO_CMD_GET_METADATA (storageGetMetadata cfg env)
  | uploadFile : Handles cfg env STORAGE_PROTO_CMD_UPLOAD_FILE (storageUploadFile cfg env)
  | deleteFile : Handles cfg env STORAGE_PROTO_CMD_DELETE_FILE (storageDeleteFile cfg env)
  | syncCreateFile : Handles cfg env STORAGE_PROTO_CMD_SYNC_CREATE_FILE
      (storageSyncCopyFile cfg env STORAGE_PROTO_CMD_SYNC_CREATE_FILE)
  | syncDeleteFile :
      Handles cfg env STORAGE_PROTO_CMD_SYNC_DELETE_FILE (storageSyncDeleteFile cfg env)
  | syncUpdateFile : Handles cfg env STORAGE_PROTO_CMD_SYNC_UPDATE_FILE
      (storageSyncCopyFile cfg env STORAGE_PROTO_CMD_SYNC_UPDATE_FILE)
  | setMetadata : Handles cfg env STORAGE_PROTO_CMD_SET_METADATA (storageSetMetadata cfg env)

theorem handles_of_handler {cfg : Config} {env : RequestEnv} {cmd : Byte}
    {f : ℤ → Inbound → Outbound → World → Handled} (hf : handler cfg env cmd = some f) :
    Handles cfg env cmd f := by
  unfold handler at hf
  split_ifs at hf with h1 h2 h3 h4 h5 h6 h7 h8 <;> cases hf
  · exact h1 ▸ .downloadFile
  · exact h2 ▸ .getMetadata
  · exact h3 ▸ .uploadFile
  · exact h4 ▸ .deleteFile
  · subst h5
    exact .syncCreateFile
  · exact h6 ▸ .syncDeleteFile
  · subst h7
    exact .syncUpdateFile
  · exact h8 ▸ .setMetadata

/-- What one turn of the loop finds beyond the connection and the world. -/
structure ThreadEnv where
  request : RequestEnv := {}
  now : ℤ := 0
  stat : StatFaults := {}

/-- A header that was decoded, with the connection before it and behind it. -/
structure Request where
  env : ThreadEnv
  start : Inbound
  header : TrackerHeader
  body : Inbound
  handled : Option Handled

/-- One turn of the loop: a timeout, with the bytes it had stored, or a request. -/
inductive Round where
  | idle (start : Inbound) (stored : Bytes)
  | request (q : Request)

/-- The turn of the loop for a decoded header: the request, and where the loop goes on. -/
def serve (cfg : Config) (env : ThreadEnv) (start body : Inbound) (header : TrackerHeader)
    (out : Outbound) (w : World) : Request × Option (Inbound × Outbound × World) :=
  let w := { w with stat := countTotal header.cmd w.stat }
  match handler cfg env.request header.cmd with
  | none => (⟨env, start, header, body, none⟩, none)
  | some f =>
    let h := f header.nInPackLen body out w
    (⟨env, start, header, body, some h⟩,
      if h.result ≠ 0 then none
      else
        let w := { h.world with stat := countSuccess header.cmd env.now h.world.stat }
        let r := checkAndWriteToStatFile env.stat w
        if r.2 then some (h.inbound, h.outbound, r.1) else none)

/-- The loop with a bound on its turns; `count` is the number of requests served. -/
def serviceLoop (cfg : Config) (envs : ℕ → ThreadEnv) :
    ℕ → ℕ → Inbound → Outbound → World → List Round
  | 0, _, _, _, _ => []
  | fuel + 1, count, inb, out, w =>
    if w.continueFlag = false then []
    else
      let r := tcprecvdata inb sizeofHeader
      if r.result = 0 then
        .idle inb r.data :: serviceLoop cfg envs fuel count r.rest out w
      else if r.result ≠ 1 then []
      else
        let s := serve cfg (envs count) inb r.rest (decodeHeader r.data) out w
        .request s.1 :: match s.2 with
          | none => []
          | some (inb', out', w') => serviceLoop cfg envs fuel (count + 1) inb' out' w'

/-- Every turn of the loop takes a byte off the stream or uses up an event. -/
def turns (inb : Inbound) : ℕ := inb.pending.length + inb.events.length + 1

def storageThreadEntrance (cfg : Config) (envs : ℕ → ThreadEnv) (inb : Inbound) (out : Outbound)
    (w : World) : List Round :=
  serviceLoop cfg envs (turns inb) 0 inb out w

end DemoStorage.ServiceThread
