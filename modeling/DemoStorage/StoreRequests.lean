import DemoStorage.ConnectionFraming
import DemoStorage.UploadExits

/-!
# The requests that change the store

An upload, a delete, a copy and a delete from another server are each a body that is
received and parsed, and an action on the store. What a call of a handler does to the
world is the action of the request it accepted, or nothing. Outside the log itself the
actions leave the log alone. An action that does not return ended the process in the write
of a record.
-/

namespace DemoStorage.StoreRequests
open ByteStrings PosixFileTree SocketTransfers DaemonState BinlogWriting BinlogOutcomes
open FileEffects LogWrites KeptPaths RequestHandlers UploadExits ServiceThread ConnectionFraming

inductive StoreRequest where
  | upload (u : UploadRequest)
  | delete (filename : Bytes)
  | syncCopy (protoCmd : Byte) (req : SyncCopyRequest)
  | syncDelete (filename : Bytes)
  deriving DecidableEq

/-- The action of a request, with its status unless it ended the process. -/
def perform (cfg : Config) (env : RequestEnv) (w : World) : StoreRequest → World × Option Errno
  | .upload u => ((uploadFile cfg env w u).1, (uploadFile cfg env w u).2.1)
  | .delete filename => deleteFile cfg env w filename
  | .syncCopy protoCmd req => syncCopyFile cfg env protoCmd w req
  | .syncDelete filename => syncDeleteFile cfg env w filename

/-- The process dies in the write of the records of an upload under a name. -/
def DiesLogging (cfg : Config) (env : RequestEnv) (w : World) (u : UploadRequest)
    (filename : Bytes) : Prop :=
  let record := logRecord env.log STORAGE_OP_TYPE_SOURCE_CREATE_FILE filename
  Dies cfg env.log w record ∨ Logs env.log w record ∧ u.metaBytes ≠ 0 ∧
    Dies cfg env.metaLog (counted w record) (logRecord env.metaLog
      STORAGE_OP_TYPE_SOURCE_CREATE_FILE (cstr filename ++ STORAGE_META_FILE_EXT))

/-- The process dies in an upload of which the files are saved. -/
def UploadDies (cfg : Config) (env : RequestEnv) (w : World) (u : UploadRequest) : Prop :=
  ∃ filename, Saved cfg env w u filename ∧ DiesLogging cfg env w u filename

/-- The process dies in a delete: in the write of one of its records. -/
def DeleteDies (cfg : Config) (env : RequestEnv) (w : World) (filename : Bytes) : Prop :=
  let record := logRecord env.log STORAGE_OP_TYPE_SOURCE_DELETE_FILE filename
  Unlinks env.unlinkData w (dataPath cfg filename) ∧
    (Dies cfg env.log w record ∨ Logs env.log w record ∧
      (Unlinks env.unlinkMeta w (dataPath cfg filename ++ STORAGE_META_FILE_EXT) ∨
        env.errno = ENOENT) ∧
      Dies cfg env.metaLog (counted w record) (logRecord env.metaLog
        STORAGE_OP_TYPE_SOURCE_DELETE_FILE (filename ++ STORAGE_META_FILE_EXT)))

/-- The process dies in a copy of which the file is written: in the write of its record. -/
def CopyDies (cfg : Config) (env : RequestEnv) (protoCmd : Byte) (w : World)
    (req : SyncCopyRequest) : Prop :=
  let full := cutPath (dataPath cfg req.filename)
  ¬ (protoCmd = STORAGE_PROTO_CMD_SYNC_CREATE_FILE ∧ w.tree.access w.cwd full = true) ∧
    (∃ l, Opens env.write w full l) ∧ ¬ Reported env.write req.content ∧
    Dies cfg env.log w (logRecord env.log (copyOp protoCmd) req.filename)

/-- The process dies in the delete of a replica: in the write of its record. -/
def SyncDeleteDies (cfg : Config) (env : RequestEnv) (w : World) (filename : Bytes) : Prop :=
  (Unlinks env.unlinkData w (dataPath cfg filename) ∨
      (unlink env.unlinkData w (dataPath cfg filename)).2 = some ENOENT) ∧
    Dies cfg env.log w (logRecord env.log STORAGE_OP_TYPE_REPLICA_DELETE_FILE filename)

/-- The process dies in the action of a request. -/
def Fatal (cfg : Config) (env : RequestEnv) (w : World) : StoreRequest → Prop
  | .upload u => UploadDies cfg env w u
  | .delete filename => DeleteDies cfg env w filename
  | .syncCopy protoCmd req => CopyDies cfg env protoCmd w req
  | .syncDelete filename => SyncDeleteDies cfg env w filename

section Deaths
variable {cfg : Config} {env : RequestEnv} {w : World}

/-- Two records one behind the other, with something done between them: the first decides for
itself, and the second one meets the log that the first has left. -/
theorem dies_behind {d v : World} (h : SameLog w d) {f g : BinlogFaults} {op op' : Byte}
    {name name' : Bytes} (hv : SameLog (storageBinlogWrite cfg f d op name).1 v) :
    ((storageBinlogWrite cfg f d op name).2 = none ↔ Dies cfg f w (logRecord f op name)) ∧
      ((storageBinlogWrite cfg f d op name).2 = some 0 ↔ Logs f w (logRecord f op name)) ∧
      ((storageBinlogWrite cfg f d op name).2 = some 0 →
        ((storageBinlogWrite cfg g v op' name').2 = none ↔
          Dies cfg g (counted w (logRecord f op name)) (logRecord g op' name'))) := by
  have hlogs := @storageBinlogWrite_eq_zero cfg f d op name
  refine ⟨storageBinlogWrite_eq_none.trans h.dies, hlogs.trans (Logs.congr h.stream h.size),
    fun h0 => ?_⟩
  exact storageBinlogWrite_eq_none.trans ((logged_sameLog cfg h (hlogs.mp h0)).trans hv).dies

/-- The upload behind files that were saved. -/
theorem uploadFile_eq_none {u : UploadRequest} :
    (uploadFile cfg env w u).2.1 = none ↔ UploadDies cfg env w u := by
  have hsame := storageSaveFile_sameLog cfg env w u
  simp only [uploadFile, UploadDies, DiesLogging, ← storageSaveFile_eq_zero]
  generalize storageSaveFile cfg env w u = x at hsame ⊢
  obtain ⟨d, r, filename⟩ := x
  obtain ⟨hdies, hlogs, hsecond⟩ := @dies_behind cfg w d _ hsame env.log env.metaLog
    STORAGE_OP_TYPE_SOURCE_CREATE_FILE STORAGE_OP_TYPE_SOURCE_CREATE_FILE filename
    (cstr filename ++ STORAGE_META_FILE_EXT) (.refl _)
  by_cases h0 : r = 0
  · simp only [h0, Prod.mk.injEq, true_and, exists_eq_left', ← hdies, ← hlogs]
    by_cases h1 : (storageBinlogWrite cfg env.log d STORAGE_OP_TYPE_SOURCE_CREATE_FILE filename).2 =
        some 0
    · rw [← hsecond h1]
      by_cases hm : u.metaBytes = 0 <;> simp [h1, hm]
    · simp [h1]
  · simp [h0]

theorem deleteFile_eq_none {filename : Bytes} :
    (deleteFile cfg env w filename).2 = none ↔ DeleteDies cfg env w filename := by
  have hsame := unlink_sameLog env.unlinkData w (dataPath cfg filename)
  have hdata := @unlink_isSome env.unlinkData w (dataPath cfg filename)
  have hkept (h : Logs env.log (unlink env.unlinkData w (dataPath cfg filename)).1
      (logRecord env.log STORAGE_OP_TYPE_SOURCE_DELETE_FILE filename)) :=
    @Kept.unlinks env.unlinkMeta _ _ _
      ((kept_unlink env.unlinkData fun _ => locate_meta_ne).trans (kept_logged cfg h _))
  simp only [deleteFile, DeleteDies]
  generalize unlink env.unlinkData w (dataPath cfg filename) = u at hsame hdata hkept ⊢
  obtain ⟨hdies, hlogs, hsecond⟩ := @dies_behind cfg w u.1 _ hsame env.log env.metaLog
    STORAGE_OP_TYPE_SOURCE_DELETE_FILE STORAGE_OP_TYPE_SOURCE_DELETE_FILE filename
    (filename ++ STORAGE_META_FILE_EXT)
    (unlink_sameLog env.unlinkMeta _ (dataPath cfg filename ++ STORAGE_META_FILE_EXT))
  rw [← @storageBinlogWrite_eq_zero cfg] at hkept
  rw [← hdies, ← hlogs]
  generalize storageBinlogWrite cfg env.log u.1 STORAGE_OP_TYPE_SOURCE_DELETE_FILE filename = x at *
  have hmeta := @unlink_isSome env.unlinkMeta x.1 (dataPath cfg filename ++ STORAGE_META_FILE_EXT)
  generalize unlink env.unlinkMeta x.1 (dataPath cfg filename ++ STORAGE_META_FILE_EXT) = v at *
  by_cases hu : u.2.isSome = true
  · simp [hu, hdata.mp hu]
  · have hunlinks := not_not.mp (hdata.not.mp hu)
    by_cases h1 : x.2 = some 0
    · rw [← hsecond h1, ← hkept h1, ← not_not (a := Unlinks _ x.1 _), ← hmeta]
      by_cases hv : v.2.isSome = true
      · by_cases he : env.errno = ENOENT <;> simp [hu, hunlinks, h1, hv, he]
      · simp [hu, hunlinks, h1, hv]
    · simp [hu, hunlinks, h1]

theorem syncDeleteFile_eq_none {filename : Bytes} :
    (syncDeleteFile cfg env w filename).2 = none ↔ SyncDeleteDies cfg env w filename := by
  have hsame := unlink_sameLog env.unlinkData w (dataPath cfg filename)
  have hdata := @unlink_isSome env.unlinkData w (dataPath cfg filename)
  simp only [syncDeleteFile, SyncDeleteDies, ← hsame.dies, ← storageBinlogWrite_eq_none]
  generalize unlink env.unlinkData w (dataPath cfg filename) = u at hdata ⊢
  obtain ⟨d, _ | e⟩ := u
  · have hunlinks := not_not.mp (hdata.not.mp Bool.false_ne_true)
    simp [hunlinks]
  · have hno := hdata.mp rfl
    by_cases he : e = ENOENT <;> simp [hno, he]

theorem syncCopyFile_eq_none {protoCmd : Byte} {req : SyncCopyRequest} :
    (syncCopyFile cfg env protoCmd w req).2 = none ↔ CopyDies cfg env protoCmd w req := by
  rw [syncCopyFile_eq cfg env protoCmd w req rfl, CopyDies]
  generalize cutPath (dataPath cfg req.filename) = full
  obtain ⟨cs, hcs⟩ := copyStart_eq protoCmd w full
  dsimp only
  rw [hcs]
  have hsame := (sameLog_calls w cs).trans
    (writeToFile_sameLog env.write { w with calls := cs } full req.content)
  by_cases hx : protoCmd = STORAGE_PROTO_CMD_SYNC_CREATE_FILE ∧ w.tree.access w.cwd full = true
  · rw [if_pos hx]
    exact iff_of_false (by simp) fun h => h.1 hx
  · rw [if_neg hx]
    by_cases ho : ∃ l, Opens env.write w full l
    · obtain ⟨l, hl⟩ := ho
      have hl' : Opens env.write { w with calls := cs } full l := hl
      obtain ⟨r, hw, hr⟩ := writeToFile_of_opens hl' req.content
      by_cases h0 : r = 0
      · rw [← hsame.dies, ← storageBinlogWrite_eq_none, hw]
        simp only [h0, ne_eq, not_true_eq_false, if_false]
        exact ⟨fun h => ⟨hx, ⟨l, hl⟩, hr.mp h0, h⟩, fun h => h.2.2.2⟩
      · rw [hw, if_pos h0]
        exact iff_of_false (by simp) fun h => h0 (hr.mpr h.2.2.1)
    · have hw := @writeToFile_of_not_opens env.write { w with calls := cs } full
        (fun l hl => ho ⟨l, hl⟩) req.content
      have hne : errnoOr env.write.errno ENOENT ≠ 0 := errnoOr_ENOENT_ne_zero _
      rw [hw, if_pos hne]
      exact iff_of_false (by simp) fun h => ho h.2.1

/-- The actions that do not return. -/
theorem perform_eq_none {r : StoreRequest} : (perform cfg env w r).2 = none ↔ Fatal cfg env w r := by
  cases r with
  | upload u => exact uploadFile_eq_none
  | delete filename => exact deleteFile_eq_none
  | syncCopy protoCmd req => exact syncCopyFile_eq_none
  | syncDelete filename => exact syncDeleteFile_eq_none

end Deaths

def isStoreCmd (cmd : Byte) : Prop :=
  cmd = STORAGE_PROTO_CMD_UPLOAD_FILE ∨ cmd = STORAGE_PROTO_CMD_DELETE_FILE ∨
    cmd = STORAGE_PROTO_CMD_SYNC_CREATE_FILE ∨ cmd = STORAGE_PROTO_CMD_SYNC_UPDATE_FILE ∨
    cmd = STORAGE_PROTO_CMD_SYNC_DELETE_FILE

instance (cmd : Byte) : Decidable (isStoreCmd cmd) := inferInstanceAs (Decidable (_ ∨ _))

/-- The request of a body that was received. -/
def parseRequest (cfg : Config) (env : RequestEnv) (cmd : Byte) (nInPackLen : ℤ) (data : Bytes) :
    Except Errno StoreRequest :=
  if cmd = STORAGE_PROTO_CMD_UPLOAD_FILE then
    (parseUpload nInPackLen (uploadBuffer env nInPackLen data)).map .upload
  else if isSyncCopy cmd then (parseSyncCopy cfg nInPackLen data).map (.syncCopy cmd)
  else if cmd = STORAGE_PROTO_CMD_DELETE_FILE then (groupFilename cfg EINVAL data).map .delete
  else (groupFilename cfg EINVAL data).map .syncDelete

/-- The process dies in the handling of a request: in the action of one that was accepted, or in
the stub that is to store the metadata of a file that is there. -/
def KillsProcess (cfg : Config) (env : RequestEnv) (cmd : Byte) (n : ℤ) (inb : Inbound)
    (w : World) : Prop :=
  if cmd = STORAGE_PROTO_CMD_SET_METADATA then
    ∃ r, (recvAllocated env 35 n n inb).2.bind (parseSetMetadata cfg n) = .ok r ∧
      w.tree.access w.cwd (dataPath cfg r.filename) = true
  else isStoreCmd cmd ∧
    ∃ r, (receiveBody env cmd n inb).2.bind (parseRequest cfg env cmd n) = .ok r ∧ Fatal cfg env w r

theorem act_eq_none_iff {cfg : Config} {env : RequestEnv} {w : World} (cmd : Byte) {n : ℤ}
    {α : Type} {parse : Bytes → Except Errno α} (mk : α → StoreRequest)
    {action : α → World × Option Errno}
    (hparse : ∀ data, parseRequest cfg env cmd n data = (parse data).map mk)
    (hperform : ∀ a, (perform cfg env w (mk a)).2 = (action a).2) (req : Except Errno Bytes) :
    (act w (req.bind parse) action).2 = none ↔
      ∃ r, req.bind (parseRequest cfg env cmd n) = .ok r ∧ Fatal cfg env w r := by
  cases req with
  | error e => exact iff_of_false (by simp [Except.bind, act]) (by simp [Except.bind])
  | ok data =>
    simp only [Except.bind, hparse]
    cases parse data with
    | error e => exact iff_of_false (by simp [act]) (by simp [Except.map])
    | ok a =>
      have hdies := @perform_eq_none cfg env w (mk a)
      rw [hperform] at hdies
      simpa [Except.map, act] using hdies

/-! The handlers end without a status exactly where the process dies. -/

section Handlers
variable {cfg : Config} {env : RequestEnv} {n : ℤ} {inb : Inbound} {w : World}

theorem upload_dies_iff :
    (match (recvAllocated env 0 sizeofPointer n inb).2.bind fun data =>
        parseUpload n (uploadBuffer env n data) with
      | .error e => (w, some e, [])
      | .ok u => uploadFile cfg env w u).2.1 = none ↔
        KillsProcess cfg env STORAGE_PROTO_CMD_UPLOAD_FILE n inb w := by
  have hset : STORAGE_PROTO_CMD_UPLOAD_FILE ≠ STORAGE_PROTO_CMD_SET_METADATA := by decide
  have hstore : isStoreCmd STORAGE_PROTO_CMD_UPLOAD_FILE := .inl rfl
  have hb : receiveBody env STORAGE_PROTO_CMD_UPLOAD_FILE n inb =
      recvAllocated env 0 sizeofPointer n inb := rfl
  simp only [KillsProcess, hset, hstore, hb, if_false, true_and]
  cases (recvAllocated env 0 sizeofPointer n inb).2 with
  | error e => exact iff_of_false (by simp [Except.bind]) (by simp [Except.bind])
  | ok data =>
    simp only [Except.bind, parseRequest, if_true]
    cases parseUpload n (uploadBuffer env n data) with
    | error e => exact iff_of_false (by simp) (by simp [Except.map])
    | ok u => simpa [Except.map, Fatal] using @uploadFile_eq_none cfg env w u

theorem delete_dies_iff :
    (act w ((recvGroupRequest env n inb).2.bind (groupFilename cfg EINVAL))
      (deleteFile cfg env w)).2 = none ↔
        KillsProcess cfg env STORAGE_PROTO_CMD_DELETE_FILE n inb w := by
  rw [KillsProcess, if_neg (by decide), and_iff_right (.inr (.inl rfl))]
  exact act_eq_none_iff STORAGE_PROTO_CMD_DELETE_FILE .delete (fun _ => rfl) (fun _ => rfl) _

theorem syncDelete_dies_iff :
    (act w ((recvGroupRequest env n inb).2.bind (groupFilename cfg EINVAL))
      (syncDeleteFile cfg env w)).2 = none ↔
        KillsProcess cfg env STORAGE_PROTO_CMD_SYNC_DELETE_FILE n inb w := by
  rw [KillsProcess, if_neg (by decide), and_iff_right (.inr (.inr (.inr (.inr rfl))))]
  exact act_eq_none_iff STORAGE_PROTO_CMD_SYNC_DELETE_FILE .syncDelete (fun _ => rfl)
    (fun _ => rfl) _

theorem syncCopy_dies_iff {cmd : Byte} (hc : isSyncCopy cmd) :
    (act w ((recvAllocated env 34 n n inb).2.bind (parseSyncCopy cfg n))
      (syncCopyFile cfg env cmd w)).2 = none ↔ KillsProcess cfg env cmd n inb w := by
  have hu : cmd ≠ STORAGE_PROTO_CMD_UPLOAD_FILE := by
    rintro rfl
    exact absurd hc (by decide)
  have hset : cmd ≠ STORAGE_PROTO_CMD_SET_METADATA := by
    rintro rfl
    exact absurd hc (by decide)
  have hstore : isStoreCmd cmd := hc.elim (fun he => .inr (.inr (.inl he)))
    fun he => .inr (.inr (.inr (.inl he)))
  have hb : receiveBody env cmd n inb = recvAllocated env 34 n n inb := by
    simp only [receiveBody, hu, hc, if_true, if_false]
  rw [KillsProcess, if_neg hset, and_iff_right hstore, hb]
  exact act_eq_none_iff cmd (.syncCopy cmd)
    (fun data => by simp only [parseRequest, hu, hc, if_true, if_false]) (fun _ => rfl) _

theorem setMetadata_dies_iff :
    (act w ((recvAllocated env 35 n n inb).2.bind (parseSetMetadata cfg n))
      (setMetadata cfg env w)).2 = none ↔
        KillsProcess cfg env STORAGE_PROTO_CMD_SET_METADATA n inb w := by
  rw [KillsProcess, if_pos rfl]
  cases (recvAllocated env 35 n n inb).2.bind (parseSetMetadata cfg n) with
  | error e => exact iff_of_false (by simp [act]) (by simp)
  | ok r =>
    simp only [act, setMetadata_eq, Except.ok.injEq, exists_eq_left']
    split_ifs with hx
    · exact iff_of_true rfl hx
    · exact iff_of_false (by simp) hx

end Handlers

/-- A call of a handler with what it meets. -/
structure Call where
  env : RequestEnv
  cmd : Byte
  nInPackLen : ℤ
  inbound : Inbound
  outbound : Outbound := ⟨[], []⟩

def Call.received (cfg : Config) (c : Call) : Except Errno StoreRequest :=
  (receiveBody c.env c.cmd c.nInPackLen c.inbound).2.bind
    (parseRequest cfg c.env c.cmd c.nInPackLen)

/-- The world behind a call; there is no handler for an unknown command. -/
def serveCall (cfg : Config) (w : World) (c : Call) : World :=
  match handler cfg c.env c.cmd with
  | some f => (f c.nInPackLen c.inbound c.outbound w).world
  | none => w

private theorem serve_upload (cfg : Config) (env : RequestEnv) (n : ℤ) (inb : Inbound)
    (out : Outbound) (w : World) : (storageUploadFile cfg env n inb out w).world =
      match (receiveBody env STORAGE_PROTO_CMD_UPLOAD_FILE n inb).2.bind
        (parseRequest cfg env STORAGE_PROTO_CMD_UPLOAD_FILE n) with
      | .ok r => (perform cfg env w r).1
      | .error _ => w := by
  have hb : receiveBody env STORAGE_PROTO_CMD_UPLOAD_FILE n inb =
      recvAllocated env 0 sizeofPointer n inb := rfl
  simp only [storageUploadFile, withBody, hb]
  cases (recvAllocated env 0 sizeofPointer n inb).2 with
  | error e => rfl
  | ok data =>
    simp only [Except.bind, parseRequest, if_true]
    cases parseUpload n (uploadBuffer env n data) with
    | error e => rfl
    | ok u => rfl

/-- A request with a group name and a file name, answered with a header. -/
private theorem serve_group {cfg : Config} {env : RequestEnv} {cmd : Byte} {n : ℤ} {inb : Inbound}
    {out : Outbound} {w : World} {action : Bytes → World × Option Errno} {mk : Bytes → StoreRequest}
    (hb : receiveBody env cmd n inb = recvGroupRequest env n inb)
    (hparse : ∀ data, parseRequest cfg env cmd n data = (groupFilename cfg EINVAL data).map mk)
    (hperform : ∀ filename, (perform cfg env w (mk filename)).1 = (action filename).1) :
    (withBody (recvGroupRequest env n inb) out fun out req =>
      let (w, status) := act w (req.bind (groupFilename cfg EINVAL)) action
      let (out, result) := replyWhenAlive out status (sendHeaderReply env out)
      (out, w, result)).world =
      match (receiveBody env cmd n inb).2.bind (parseRequest cfg env cmd n) with
      | .ok r => (perform cfg env w r).1
      | .error _ => w := by
  simp only [hb, withBody]
  cases (recvGroupRequest env n inb).2 with
  | error e => rfl
  | ok data =>
    simp only [Except.bind, hparse]
    cases groupFilename cfg EINVAL data with
    | error e => rfl
    | ok filename => exact (hperform filename).symm

private theorem serve_delete (cfg : Config) (env : RequestEnv) (n : ℤ) (inb : Inbound)
    (out : Outbound) (w : World) : (storageDeleteFile cfg env n inb out w).world =
      match (receiveBody env STORAGE_PROTO_CMD_DELETE_FILE n inb).2.bind
        (parseRequest cfg env STORAGE_PROTO_CMD_DELETE_FILE n) with
      | .ok r => (perform cfg env w r).1
      | .error _ => w :=
  @serve_group cfg env _ n inb out w (deleteFile cfg env w) .delete rfl (fun _ => rfl) fun _ => rfl

private theorem serve_syncDelete (cfg : Config) (env : RequestEnv) (n : ℤ) (inb : Inbound)
    (out : Outbound) (w : World) : (storageSyncDeleteFile cfg env n inb out w).world =
      match (receiveBody env STORAGE_PROTO_CMD_SYNC_DELETE_FILE n inb).2.bind
        (parseRequest cfg env STORAGE_PROTO_CMD_SYNC_DELETE_FILE n) with
      | .ok r => (perform cfg env w r).1
      | .error _ => w :=
  @serve_group cfg env _ n inb out w (syncDeleteFile cfg env w) .syncDelete rfl (fun _ => rfl)
    fun _ => rfl

private theorem serve_syncCopy {cmd : Byte} (h : isSyncCopy cmd) (cfg : Config) (env : RequestEnv)
    (n : ℤ) (inb : Inbound) (out : Outbound) (w : World) :
    (storageSyncCopyFile cfg env cmd n inb out w).world =
      match (receiveBody env cmd n inb).2.bind (parseRequest cfg env cmd n) with
      | .ok r => (perform cfg env w r).1
      | .error _ => w := by
  have hu : cmd ≠ STORAGE_PROTO_CMD_UPLOAD_FILE := by
    rintro rfl
    exact absurd h (by decide)
  simp only [storageSyncCopyFile, withBody, receiveBody, hu, h, if_true, if_false]
  cases (recvAllocated env 34 n n inb).2 with
  | error e => rfl
  | ok data =>
    simp only [Except.bind, parseRequest, hu, h, if_true, if_false]
    cases parseSyncCopy cfg n data with
    | error e => rfl
    | ok req => rfl

/-- A call acts on the world as the request it accepted. -/
theorem serveCall_eq {c : Call} (h : isStoreCmd c.cmd) (cfg : Config) (w : World) :
    serveCall cfg w c = match c.received cfg with
      | .ok r => (perform cfg c.env w r).1
      | .error _ => w := by
  obtain ⟨env, cmd, n, inb, out⟩ := c
  obtain rfl | rfl | rfl | rfl | rfl := h
  · exact serve_upload cfg env n inb out w
  · exact serve_delete cfg env n inb out w
  · exact serve_syncCopy (.inl rfl) cfg env n inb out w
  · exact serve_syncCopy (.inr rfl) cfg env n inb out w
  · exact serve_syncDelete cfg env n inb out w

end DemoStorage.StoreRequests
