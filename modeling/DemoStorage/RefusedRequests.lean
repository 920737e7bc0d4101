import DemoStorage.ReplyAgreement
import DemoStorage.StatisticsSessions

/-!
# Refused requests

A request is refused by the length it declares, by a field of its body, by its group name or
because the file it is about is missing. Each of these checks comes before the first effect:
the store and the log stay as they were, the reply is a header with a status and no body, and
the connection ends.
-/

namespace DemoStorage.RefusedRequests
open ByteStrings PosixFileTree SocketTransfers DaemonState RequestHandlers ServiceThread
open ConnectionFraming ReplyAgreement StatisticsSessions FileEffects

/-- The commands whose body is a group name and a file name. -/
def isGroupCmd (cmd : Byte) : Prop :=
  cmd = STORAGE_PROTO_CMD_DOWNLOAD_FILE ∨ cmd = STORAGE_PROTO_CMD_GET_METADATA ∨
    cmd = STORAGE_PROTO_CMD_DELETE_FILE ∨ cmd = STORAGE_PROTO_CMD_SYNC_DELETE_FILE

/-- The commands among them that need the file to exist. -/
def needsFile (cmd : Byte) : Prop :=
  cmd = STORAGE_PROTO_CMD_DOWNLOAD_FILE ∨ cmd = STORAGE_PROTO_CMD_GET_METADATA ∨
    cmd = STORAGE_PROTO_CMD_DELETE_FILE

def Missing (cfg : Config) (w : World) (filename : Bytes) : Prop :=
  w.tree.access w.cwd (dataPath cfg filename) = false

/-- A check of the handler that a request with this header and body does not pass, or a
command that has no handler. -/
inductive Refused (cfg : Config) (env : RequestEnv) (cmd : Byte) (n : ℤ) (body : Inbound)
    (w : World) : Prop where
  | unknown (h : handler cfg env cmd = none)
  | groupLength (hc : isGroupCmd cmd) (h : n ≤ FDFS_GROUP_NAME_MAX_LEN ∨ sizeofInBuff ≤ n)
  | groupName {data : Bytes} (hc : isGroupCmd cmd) (hr : (recvGroupRequest env n body).2 = .ok data)
      (h : cstr (data.take FDFS_GROUP_NAME_MAX_LEN.toNat) ≠ cfg.groupName)
  | missing {data filename : Bytes} (hc : needsFile cmd)
      (hr : (recvGroupRequest env n body).2 = .ok data)
      (hn : groupFilename cfg EINVAL data = .ok filename) (h : Missing cfg w filename)
  | uploadLength (hc : cmd = STORAGE_PROTO_CMD_UPLOAD_FILE) (h : n ≤ 0)
  | uploadFields {data : Bytes} {e : Errno} (hc : cmd = STORAGE_PROTO_CMD_UPLOAD_FILE)
      (hr : (recvAllocated env 0 sizeofPointer n body).2 = .ok data)
      (h : parseUpload n (uploadBuffer env n data) = .error e)
  | copyLength (hc : isSyncCopy cmd) (h : n ≤ 34)
  | copyFields {data : Bytes} {e : Errno} (hc : isSyncCopy cmd)
      (hr : (recvAllocated env 34 n n body).2 = .ok data) (h : parseSyncCopy cfg n data = .error e)
  | setLength (hc : cmd = STORAGE_PROTO_CMD_SET_METADATA) (h : n ≤ 35)
  | setFields {data : Bytes} {e : Errno} (hc : cmd = STORAGE_PROTO_CMD_SET_METADATA)
      (hr : (recvAllocated env 35 n n body).2 = .ok data)
      (h : parseSetMetadata cfg n data = .error e)
  | setMissing {data : Bytes} {req : SetMetadataRequest}
      (hc : cmd = STORAGE_PROTO_CMD_SET_METADATA)
      (hr : (recvAllocated env 35 n n body).2 = .ok data)
      (hp : parseSetMetadata cfg n data = .ok req) (h : Missing cfg w req.filename)

section Checks

variable {cfg : Config} {env : RequestEnv} {n : ℤ} {body : Inbound} {w : World}

theorem recvGroupRequest_length (h : n ≤ FDFS_GROUP_NAME_MAX_LEN ∨ sizeofInBuff ≤ n) :
    (recvGroupRequest env n body).2 = .error EINVAL := by
  unfold recvGroupRequest
  split
  · rfl
  · rw [if_pos (h.resolve_left ‹_›)]

theorem recvAllocated_length {minLen size : ℤ} (h : n ≤ minLen) :
    (recvAllocated env minLen size n body).2 = .error EINVAL := by
  rw [recvAllocated, if_pos h]

theorem groupFilename_wrong {mismatch : Errno} {data : Bytes}
    (h : cstr (data.take FDFS_GROUP_NAME_MAX_LEN.toNat) ≠ cfg.groupName) :
    groupFilename cfg mismatch data = .error mismatch := if_pos h

theorem parseUpload_error {data : Bytes} {e : Errno} (h : parseUpload n data = .error e) :
    e = EINVAL := by
  unfold parseUpload at h
  dsimp only at h
  split_ifs at h <;> exact (Except.error.inj h).symm

theorem parseSyncCopy_error {data : Bytes} {e : Errno} (h : parseSyncCopy cfg n data = .error e) :
    e = EPIPE ∨ e = EINVAL := by
  unfold parseSyncCopy at h
  dsimp only at h
  split_ifs at h
  · exact .inl (Except.error.inj h).symm
  · exact .inl (Except.error.inj h).symm
  · exact .inr (Except.error.inj h).symm
  · exact .inl (Except.error.inj h).symm

theorem parseSetMetadata_error {data : Bytes} {e : Errno}
    (h : parseSetMetadata cfg n data = .error e) : e = EINVAL := by
  unfold parseSetMetadata at h
  dsimp only at h
  split_ifs at h <;> exact (Except.error.inj h).symm

/-- A missing file can neither be removed nor read. -/
theorem unlink_missing (fault : Option Errno) {p : Bytes} (h : w.tree.access w.cwd p = false) :
    ∃ e, unlink fault w p = (w.touch p, some e) := by
  refine unlink_of_not_removable fun _ l ⟨hl, hc⟩ => ?_
  obtain ⟨b, hb⟩ := Option.isSome_iff_exists.mp hc
  have hx : w.tree.access w.cwd p = true :=
    FileTree.access_eq_true.mpr ⟨l, hl, by simp [FileTree.content_eq_some.mp hb]⟩
  rw [h] at hx
  cases hx

theorem getFileContent_missing {f : ReadFaults} {p : Bytes} (h : w.tree.access w.cwd p = false) :
    ∃ e, e ≠ 0 ∧ getFileContent f w p = (w.touch p, e, none) := by
  unfold getFileContent
  cases f.fopen with
  | some e => exact ⟨_, errnoOr_ENOENT_ne_zero e, rfl⟩
  | none =>
    cases ho : openedFile f w p with
    | error e => exact ⟨_, errnoOr_ENOENT_ne_zero e, rfl⟩
    | ok b =>
      rw [access_of_openedFile ho] at h
      cases h

end Checks

section Replies

/-- What a refused request leaves: the world with some more path calls, a header with a status
and no body as far as the connection takes it, and a result that ends the connection. -/
def Declined (env : RequestEnv) (out : Outbound) (w : World) (h : Handled) : Prop :=
  ∃ status cs, status ≠ 0 ∧ h.world = { w with calls := cs } ∧
    h.outbound = (tcpsenddata (out.awaiting h.inbound) (some (replyHeader env 0 status))).2 ∧
    h.result ≠ 0

variable {cfg : Config} {env : RequestEnv} {n : ℤ} {body : Inbound} {out : Outbound} {w : World}

theorem result_ne_zero (env : RequestEnv) {status : Errno} (h : status ≠ 0) (sent : ℤ) :
    (if sent ≠ 1 then errnoOr env.sendErrno EPIPE else status) ≠ 0 := by
  split
  · exact errnoOr_ne_zero (by decide)
  · exact h

theorem sendFileReply_error {status : Errno} (h : status ≠ 0) :
    sendFileReply env out status none =
      ((tcpsenddata out (some (replyHeader env 0 status))).2,
        if (tcpsenddata out (some (replyHeader env 0 status))).1 ≠ 1 then
          errnoOr env.sendErrno EPIPE else status) := by
  have hlen : (((none : Option Bytes).getD []).length : ℤ) = 0 := rfl
  rw [sendFileReply]
  dsimp only
  rw [hlen]
  split
  · rfl
  · rfl

theorem declined_of_headerReply {status : Errno} (h : status ≠ 0) (inb : Inbound)
    (cs : List Bytes) : Declined env out w
      ⟨inb, (sendHeaderReply env (out.awaiting inb) status).1, { w with calls := cs },
        (sendHeaderReply env (out.awaiting inb) status).2⟩ :=
  ⟨status, cs, h, rfl, rfl, result_ne_zero env h _⟩

theorem declined_of_fileReply {status : Errno} (h : status ≠ 0) (inb : Inbound)
    (cs : List Bytes) : Declined env out w
      ⟨inb, (sendFileReply env (out.awaiting inb) status none).1, { w with calls := cs },
        (sendFileReply env (out.awaiting inb) status none).2⟩ := by
  rw [sendFileReply_error h]
  exact ⟨status, cs, h, rfl, rfl, result_ne_zero env h _⟩

theorem downloadFile_declined {e : Errno} (he : e ≠ 0)
    (h : (recvGroupRequest env n body).2.bind
      (groupFilename cfg (errnoOr env.errno EINVAL)) = .error e) :
    Declined env out w (storageDownloadFile cfg env n body out w) := by
  rw [storageDownloadFile, withBody, h]
  exact declined_of_fileReply he _ w.calls

theorem getMetadata_declined {e : Errno} (he : e ≠ 0)
    (h : (recvGroupRequest env n body).2.bind (groupFilename cfg EINVAL) = .error e) :
    Declined env out w (storageGetMetadata cfg env n body out w) := by
  rw [storageGetMetadata, withBody, h]
  exact declined_of_fileReply he _ w.calls

theorem deleteFile_declined {e : Errno} (he : e ≠ 0)
    (h : (recvGroupRequest env n body).2.bind (groupFilename cfg EINVAL) = .error e) :
    Declined env out w (storageDeleteFile cfg env n body out w) := by
  rw [storageDeleteFile, withBody, h]
  exact declined_of_headerReply he _ w.calls

theorem syncDeleteFile_declined {e : Errno} (he : e ≠ 0)
    (h : (recvGroupRequest env n body).2.bind (groupFilename cfg EINVAL) = .error e) :
    Declined env out w (storageSyncDeleteFile cfg env n body out w) := by
  rw [storageSyncDeleteFile, withBody, h]
  exact declined_of_headerReply he _ w.calls

theorem setMetadata_declined {e : Errno} (he : e ≠ 0)
    (h : (recvAllocated env 35 n n body).2.bind (parseSetMetadata cfg n) = .error e) :
    Declined env out w (storageSetMetadata cfg env n body out w) := by
  rw [storageSetMetadata, withBody, h]
  exact declined_of_headerReply he _ w.calls

/-- A copy keeps the connection on the status of an existing file only. -/
theorem syncCopyFile_declined {cmd : Byte} {e : Errno} (he : e = EPIPE ∨ e = EINVAL)
    (h : (recvAllocated env 34 n n body).2.bind (parseSyncCopy cfg n) = .error e) :
    Declined env out w (storageSyncCopyFile cfg env cmd n body out w) := by
  have hne : e ≠ 0 ∧ e ≠ EEXIST := by
    rcases he with rfl | rfl <;> decide
  rw [storageSyncCopyFile, withBody, h]
  refine ⟨e, w.calls, hne.1, rfl, rfl, ?_⟩
  have hresult := result_ne_zero env hne.1
    (tcpsenddata (out.awaiting (recvAllocated env 34 n n body).1) (some (replyHeader env 0 e))).1
  simpa only [act, replyWhenAlive_some, hne.2, if_false] using hresult

theorem uploadFile_declined {e : Errno} (he : e ≠ 0)
    (h : (recvAllocated env 0 sizeofPointer n body).2.bind
      (fun data => parseUpload n (uploadBuffer env n data)) = .error e) :
    Declined env out w (storageUploadFile cfg env n body out w) := by
  rw [storageUploadFile, withBody, h]
  refine ⟨e, w.calls, he, rfl, ?_, ?_⟩
  · simp only [replyWhenAlive_some, if_neg he]
  · simpa only [replyWhenAlive_some, if_neg he] using result_ne_zero env he (tcpsenddata
      (out.awaiting (recvAllocated env 0 sizeofPointer n body).1) (some (replyHeader env 0 e))).1

end Replies

section Missing

variable {cfg : Config} {env : RequestEnv} {n : ℤ} {body : Inbound} {out : Outbound} {w : World}
variable {data filename : Bytes}

theorem downloadFile_missing (hr : (recvGroupRequest env n body).2 = .ok data)
    (hn : groupFilename cfg EINVAL data = .ok filename) (h : Missing cfg w filename) :
    Declined env out w (storageDownloadFile cfg env n body out w) := by
  obtain ⟨e, he, hread⟩ := getFileContent_missing (f := env.read) h
  have hname := groupFilename_ok hn (errnoOr env.errno EINVAL)
  have hreq : (recvGroupRequest env n body).2.bind
      (groupFilename cfg (errnoOr env.errno EINVAL)) = .ok filename := by
    rw [hr]
    exact hname
  rw [storageDownloadFile, withBody, hreq]
  simp only [downloadFile, hread]
  exact declined_of_fileReply he _ (w.calls ++ [dataPath cfg filename])

theorem bind_groupFilename (hr : (recvGroupRequest env n body).2 = .ok data)
    (hn : groupFilename cfg EINVAL data = .ok filename) :
    (recvGroupRequest env n body).2.bind (groupFilename cfg EINVAL) = .ok filename := by
  rw [hr]
  exact hn

theorem getMetadata_missing (hr : (recvGroupRequest env n body).2 = .ok data)
    (hn : groupFilename cfg EINVAL data = .ok filename) (h : Missing cfg w filename) :
    Declined env out w (storageGetMetadata cfg env n body out w) := by
  have hstat : getMetadata cfg env w filename = (w.touch (dataPath cfg filename), ENOENT, none) := by
    have hx : w.tree.access w.cwd (dataPath cfg filename) = false := h
    simp [getMetadata, fileExists, hx]
  rw [storageGetMetadata, withBody, bind_groupFilename hr hn]
  simp only [hstat]
  exact declined_of_fileReply (by decide) _ (w.calls ++ [dataPath cfg filename])

theorem deleteFile_missing (hr : (recvGroupRequest env n body).2 = .ok data)
    (hn : groupFilename cfg EINVAL data = .ok filename) (h : Missing cfg w filename) :
    Declined env out w (storageDeleteFile cfg env n body out w) := by
  obtain ⟨e, hunlink⟩ := unlink_missing env.unlinkData h
  have hdelete : deleteFile cfg env w filename =
      (w.touch (dataPath cfg filename), some (errnoOr env.errno EACCES)) := by
    simp [deleteFile, hunlink]
  have hne : errnoOr env.errno EACCES ≠ 0 := errnoOr_ne_zero (by decide)
  rw [storageDeleteFile, withBody, bind_groupFilename hr hn]
  simp only [act, hdelete]
  exact declined_of_headerReply hne _ (w.calls ++ [dataPath cfg filename])

theorem setMetadata_missing {req : SetMetadataRequest}
    (hr : (recvAllocated env 35 n n body).2 = .ok data)
    (hp : parseSetMetadata cfg n data = .ok req) (h : Missing cfg w req.filename) :
    Declined env out w (storageSetMetadata cfg env n body out w) := by
  have hset : setMetadata cfg env w req = (w.touch (dataPath cfg req.filename), some ENOENT) := by
    have hx : w.tree.access w.cwd (dataPath cfg req.filename) = false := h
    simp [setMetadata, fileExists, hx]
  have hreq : (recvAllocated env 35 n n body).2.bind (parseSetMetadata cfg n) = .ok req := by
    rw [hr]
    exact hp
  rw [storageSetMetadata, withBody, hreq]
  simp only [act, hset]
  exact declined_of_headerReply (by decide) _ (w.calls ++ [dataPath cfg req.filename])

end Missing

section Requests

variable {cfg : Config} {env : RequestEnv} {cmd : Byte} {n : ℤ} {body : Inbound} {w : World}

/-- A request that one of the four handlers refuses before it looks at the store. -/
theorem groupRequest_declined {f : ℤ → Inbound → Outbound → World → Handled}
    (hf : handler cfg env cmd = some f) (hc : isGroupCmd cmd)
    (h : ∀ mismatch : Errno, mismatch ≠ 0 → ∃ e, e ≠ 0 ∧
      (recvGroupRequest env n body).2.bind (groupFilename cfg mismatch) = .error e)
    (out : Outbound) : Declined env out w (f n body out w) := by
  obtain ⟨e, he, hbind⟩ := h EINVAL (by decide)
  obtain rfl | rfl | rfl | rfl := hc
  · obtain ⟨e, he, hbind⟩ := h (errnoOr env.errno EINVAL) (errnoOr_ne_zero (by decide))
    obtain rfl : storageDownloadFile cfg env = f := Option.some.inj hf
    exact downloadFile_declined he hbind
  · obtain rfl : storageGetMetadata cfg env = f := Option.some.inj hf
    exact getMetadata_declined he hbind
  · obtain rfl : storageDeleteFile cfg env = f := Option.some.inj hf
    exact deleteFile_declined he hbind
  · obtain rfl : storageSyncDeleteFile cfg env = f := Option.some.inj hf
    exact syncDeleteFile_declined he hbind

theorem syncCopy_handler {f : ℤ → Inbound → Outbound → World → Handled}
    (hf : handler cfg env cmd = some f) (hc : isSyncCopy cmd) :
    f = storageSyncCopyFile cfg env cmd := by
  obtain rfl | rfl := hc
  · exact (Option.some.inj hf).symm
  · exact (Option.some.inj hf).symm

/-- Whatever check refuses a request, its handler declines it. -/
theorem declined_of_refused (h : Refused cfg env cmd n body w)
    {f : ℤ → Inbound → Outbound → World → Handled} (hf : handler cfg env cmd = some f)
    (out : Outbound) : Declined env out w (f n body out w) := by
  cases h with
  | unknown h =>
    rw [hf] at h
    cases h
  | groupLength hc h =>
    refine groupRequest_declined hf hc (fun mismatch hne => ⟨EINVAL, by decide, ?_⟩) out
    rw [recvGroupRequest_length h]
    rfl
  | groupName hc hr h =>
    refine groupRequest_declined hf hc (fun mismatch hne => ⟨mismatch, hne, ?_⟩) out
    rw [hr]
    exact groupFilename_wrong h
  | missing hc hr hn h =>
    obtain rfl | rfl | rfl := hc
    · obtain rfl : storageDownloadFile cfg env = f := Option.some.inj hf
      exact downloadFile_missing hr hn h
    · obtain rfl : storageGetMetadata cfg env = f := Option.some.inj hf
      exact getMetadata_missing hr hn h
    · obtain rfl : storageDeleteFile cfg env = f := Option.some.inj hf
      exact deleteFile_missing hr hn h
  | uploadLength hc h =>
    subst hc
    obtain rfl : storageUploadFile cfg env = f := Option.some.inj hf
    refine uploadFile_declined (e := EINVAL) (by decide) ?_
    rw [recvAllocated_length h]
    rfl
  | uploadFields hc hr h =>
    subst hc
    obtain rfl : storageUploadFile cfg env = f := Option.some.inj hf
    obtain rfl := parseUpload_error h
    refine uploadFile_declined (e := EINVAL) (by decide) ?_
    rw [hr]
    exact h
  | copyLength hc h =>
    obtain rfl := syncCopy_handler hf hc
    refine syncCopyFile_declined (.inr rfl) ?_
    rw [recvAllocated_length h]
    rfl
  | copyFields hc hr h =>
    obtain rfl := syncCopy_handler hf hc
    refine syncCopyFile_declined (parseSyncCopy_error h) ?_
    rw [hr]
    exact h
  | setLength hc h =>
    subst hc
    obtain rfl : storageSetMetadata cfg env = f := Option.some.inj hf
    refine setMetadata_declined (e := EINVAL) (by decide) ?_
    rw [recvAllocated_length h]
    rfl
  | setFields hc hr h =>
    subst hc
    obtain rfl : storageSetMetadata cfg env = f := Option.some.inj hf
    obtain rfl := parseSetMetadata_error h
    refine setMetadata_declined (e := EINVAL) (by decide) ?_
    rw [hr]
    exact h
  | setMissing hc hr hp h =>
    subst hc
    obtain rfl : storageSetMetadata cfg env = f := Option.some.inj hf
    exact setMetadata_missing hr hp h

end Requests

/-- The counters a turn advances first are none of what a refusal looks at. -/
theorem Refused.of_stat {cfg : Config} {env : RequestEnv} {cmd : Byte} {n : ℤ} {body : Inbound}
    {w : World} (h : Refused cfg env cmd n body w) (s : FDFSStorageStat) :
    Refused cfg env cmd n body { w with stat := s } := by
  cases h with
  | unknown h => exact .unknown h
  | groupLength hc h => exact .groupLength hc h
  | groupName hc hr h => exact .groupName hc hr h
  | missing hc hr hn h => exact .missing hc hr hn h
  | uploadLength hc h => exact .uploadLength hc h
  | uploadFields hc hr h => exact .uploadFields hc hr h
  | copyLength hc h => exact .copyLength hc h
  | copyFields hc hr h => exact .copyFields hc hr h
  | setLength hc h => exact .setLength hc h
  | setFields hc hr h => exact .setFields hc hr h
  | setMissing hc hr hp h => exact .setMissing hc hr hp h

/-- A handled request without effect: every file and the log are as they were, no success is
counted, and what the connection takes is a header with a status and no body. -/
structure Ineffective (out : Outbound) (w : World) (h : Handled) : Prop where
  tree : h.world.tree = w.tree
  log : h.world.fpBinlog = w.fpBinlog ∧ h.world.written = w.written
  counters : ∀ k : Kind, k.success h.world.stat = k.success w.stat
  reply : ∃ header, header.length = 11 ∧ (decodeHeader header).nInPackLen = 0 ∧
    (decodeHeader header).status ≠ 0 ∧
    h.outbound = (tcpsenddata (out.awaiting h.inbound) (some header)).2

/-- A refused request has no effect and ends the loop. -/
theorem serve_refused {cfg : Config} {env : ThreadEnv} {body : Inbound} {header : TrackerHeader}
    {w : World} (h : Refused cfg env.request header.cmd header.nInPackLen body w)
    (start : Inbound) (out : Outbound) :
    (serve cfg env start body header out w).2 = none ∧
      ∀ g, (serve cfg env start body header out w).1.handled = some g → Ineffective out w g := by
  cases hf : handler cfg env.request header.cmd with
  | none =>
    have hserve : serve cfg env start body header out w =
        (⟨env, start, header, body, none⟩, none) := by simp [serve, hf]
    rw [hserve]
    exact ⟨rfl, fun g hg => absurd hg (by simp)⟩
  | some f =>
    obtain ⟨status, cs, hne, hworld, hout, hresult⟩ :=
      declined_of_refused (h.of_stat (countTotal header.cmd w.stat)) hf out
    have hserve : (serve cfg env start body header out w).2 = none ∧
        (serve cfg env start body header out w).1.handled = some (f header.nInPackLen body out
          { w with stat := countTotal header.cmd w.stat }) := by simp [serve, hf, hresult]
    refine ⟨hserve.1, fun g hg => ?_⟩
    obtain rfl := Option.some.inj (hserve.2.symm.trans hg)
    obtain ⟨hn, hs⟩ := decodeHeader_replyHeader env.request le_rfl (by decide) status
    refine ⟨by rw [hworld], by rw [hworld]; exact ⟨rfl, rfl⟩, fun k => ?_, ?_⟩
    · rw [hworld]
      exact success_countTotal k header.cmd w.stat
    · exact ⟨replyHeader env.request 0 status, length_replyHeader _ _ _, hn, by rwa [hs], hout⟩

/-- A turn of the loop that decodes the header of a refused request: the request has no effect
and is the last of the connection. -/
theorem refused_request_ineffective (cfg : Config) (envs : ℕ → ThreadEnv) (fuel count : ℕ)
    (inb : Inbound) (out : Outbound) (w : World) (hgo : w.continueFlag = true)
    (hrecv : (tcprecvdata inb sizeofHeader).result = 1)
    (href : Refused cfg (envs count).request (decodeHeader (tcprecvdata inb sizeofHeader).data).cmd
      (decodeHeader (tcprecvdata inb sizeofHeader).data).nInPackLen
      (tcprecvdata inb sizeofHeader).rest w) :
    ∃ q : Request, serviceLoop cfg envs (fuel + 1) count inb out w = [.request q] ∧
      q.header = decodeHeader (tcprecvdata inb sizeofHeader).data ∧
      ∀ h, q.handled = some h → Ineffective out w h := by
  obtain ⟨hend, heffect⟩ := serve_refused href inb out
  refine ⟨_, ?_, ?_, heffect⟩
  · have hzero : (tcprecvdata inb sizeofHeader).result ≠ 0 := by
      rw [hrecv]
      decide
    rw [serviceLoop, if_neg (by simp [hgo]), if_neg hzero, if_neg (not_not.mpr hrecv)]
    dsimp only
    rw [hend]
  · unfold serve
    split <;> rfl

/-- The body of a request that names another group. -/
def otherGroup : Bytes := ascii "other" ++ List.replicate 11 0 ++ ascii "f"

/-- A delete of a file of another group: a body of 17 bytes. -/
def otherGroupDelete : Inbound where
  pending := ascii "11" ++ List.replicate 7 0 ++ [STORAGE_PROTO_CMD_DELETE_FILE, 0] ++ otherGroup
  events := []

theorem otherGroupDelete_received : (recvGroupRequest {}
    (decodeHeader (tcprecvdata otherGroupDelete sizeofHeader).data).nInPackLen
    (tcprecvdata otherGroupDelete sizeofHeader).rest).2 = .ok otherGroup := by decide

theorem otherGroupDelete_ineffective :
    ∃ q : Request, serviceLoop sampleConfig (fun _ => {}) 1 0 otherGroupDelete ⟨[], []⟩
        (World.initial .empty []) = [.request q] ∧
      q.header = decodeHeader (tcprecvdata otherGroupDelete sizeofHeader).data ∧
      ∀ h, q.handled = some h → Ineffective ⟨[], []⟩ (World.initial .empty []) h :=
  refused_request_ineffective sampleConfig (fun _ => {}) 0 0 otherGroupDelete ⟨[], []⟩
    (World.initial .empty []) rfl (by decide) (.groupName (.inr (.inr (.inl (by decide))))
      otherGroupDelete_received (by decide))

end DemoStorage.RefusedRequests
