import DemoStorage.HeartBeats
import DemoStorage.ReplyAgreement

/-!
# What the stack adds to the messages

A reply, a heart beat, a statistics report and the package that ends a session with a tracker
are built in a header that nothing clears, and the length is printed into its nine bytes with
a NUL behind it. The bytes behind the NUL are those the stack held, and they are sent. Only
eight digits fill the field. The packages about joining and synchronising are built in memory
that is cleared first.
-/

namespace DemoStorage.WireContents
open ByteStrings PosixFileTree SocketTransfers GeneratedNames DaemonState RequestHandlers
open ServiceThread ConnectionFraming StoreRequests UploadRoundTrip ReplyAgreement TrackerProtocol
open HeartBeats

/-- What the uninitialised locals of one call hold at its start. -/
structure Locals where
  stack : ℕ → Byte
  syncFlag : Byte

/-- A request that is served with these locals. -/
def withLocals (env : RequestEnv) (a : Locals) : RequestEnv :=
  { env with stack := a.stack, syncFlag := a.syncFlag }

def TRACKER_PROTO_CMD_STORAGE_JOIN : Byte := 81
def TRACKER_PROTO_CMD_STORAGE_REPORT : Byte := 84

/-- `tracker_quit`; the first two bytes of the length are written one by one. -/
def trackerQuit (stack : ℕ → Byte) (errno : Errno) (out : Outbound) : Outbound × Errno :=
  sendPackage errno out
    (fillField TRACKER_PROTO_PKG_LEN_SIZE [48, 0] stack ++ [TRACKER_PROTO_CMD_STORAGE_QUIT, 0])

/-- `sizeof(TrackerStatReportReqBody)`. -/
def sizeofStatReportBody : ℤ := 8

/-- `tracker_report_stat`, given the two sizes in megabytes unless `statfs` fails. -/
def trackerReportStat (stack : ℕ → Byte) (errno : Errno) (sizes : Option (ℤ × ℤ))
    (out : Outbound) : Outbound × Errno :=
  match sizes with
  | none => (out, errnoOr errno EACCES)
  | some (totalMb, freeMb) => sendPackage errno out
      (fillField TRACKER_PROTO_PKG_LEN_SIZE (hexadecimal sizeofStatReportBody ++ [0]) stack ++
        ([TRACKER_PROTO_CMD_STORAGE_REPORT, 0] ++ (int2buff totalMb ++ int2buff freeMb)))

/-- `sizeof(TrackerStorageJoinBody)`. -/
def sizeofJoinBody : ℤ := FDFS_GROUP_NAME_MAX_LEN + 1 + TRACKER_PROTO_PKG_LEN_SIZE

/-- `tracker_report_join`. -/
def trackerReportJoin (cfg : Config) (serverPort : ℤ) (errno : Errno) (out : Outbound) :
    Outbound × Errno :=
  sendPackage errno out (requestHeader (hexadecimal sizeofJoinBody) TRACKER_PROTO_CMD_STORAGE_JOIN ++
    padField (FDFS_GROUP_NAME_MAX_LEN.toNat + 1) cfg.groupName ++
    padField TRACKER_PROTO_PKG_LEN_SIZE (hexadecimal serverPort))

def trackerSyncNotify (s : SyncSource) (errno : Errno) (out : Outbound) : Outbound × Errno :=
  sendPackage errno out (syncNotifyPackage s)

/-- The calls that send something, each with what it meets besides its locals. -/
inductive Message where
  | reply (env : RequestEnv) (cmd : Byte) (n : ℤ) (body : Inbound) (w : World)
  | quit (errno : Errno)
  | heartBeat (errno : Errno) (statChgSyncCount statChangeCount : ℤ) (s : FDFSStorageStat)
  | reportStat (errno : Errno) (sizes : Option (ℤ × ℤ))
  | join (errno : Errno) (serverPort : ℤ)
  | syncNotify (errno : Errno) (s : SyncSource)
  | syncDestReq (e : ExchangeErrnos) (inb : Inbound) (g : SyncSource)

/-- The bytes on a connection behind a call. -/
def Message.sent (cfg : Config) (a : Locals) (out : Outbound) : Message → Bytes
  | .reply env cmd n body w =>
    match handler cfg (withLocals env a) cmd with
    | some f => (f n body out w).outbound.sent
    | none => out.sent
  | .quit errno => (trackerQuit a.stack errno out).1.sent
  | .heartBeat errno statChgSyncCount statChangeCount s =>
    (trackerHeartBeat a.stack errno out statChgSyncCount statChangeCount s).1.sent
  | .reportStat errno sizes => (trackerReportStat a.stack errno sizes out).1.sent
  | .join errno serverPort => (trackerReportJoin cfg serverPort errno out).1.sent
  | .syncNotify errno s => (trackerSyncNotify s errno out).1.sent
  | .syncDestReq e inb g => (trackerSyncDestReq e inb out g).2.1.sent

/-- No connection tells two calls apart that differ in their locals only. -/
def Hidden (cfg : Config) (m : Message) : Prop :=
  ∀ a b : Locals, ∀ out : Outbound, m.sent cfg a out = m.sent cfg b out

section Fields
variable {text : Bytes}

/-- A text of nine bytes leaves nothing of what the field held. -/
theorem fillField_covered (h : TRACKER_PROTO_PKG_LEN_SIZE ≤ text.length) (old old' : ℕ → Byte) :
    fillField TRACKER_PROTO_PKG_LEN_SIZE text old =
      fillField TRACKER_PROTO_PKG_LEN_SIZE text old' := by
  have h0 : TRACKER_PROTO_PKG_LEN_SIZE - text.length = 0 := by omega
  rw [fillField, fillField, h0]
  rfl

/-- A shorter text leaves the last byte. -/
theorem fillField_last (h : text.length < TRACKER_PROTO_PKG_LEN_SIZE) (old : ℕ → Byte)
    (rest : Bytes) : (fillField TRACKER_PROTO_PKG_LEN_SIZE text old ++ rest)[8]? = some (old 8) := by
  have h9 : TRACKER_PROTO_PKG_LEN_SIZE = 9 := rfl
  have htake : text.take TRACKER_PROTO_PKG_LEN_SIZE = text := List.take_of_length_le h.le
  have hlen : 8 < (fillField TRACKER_PROTO_PKG_LEN_SIZE text old).length := by
    rw [length_fillField]
    omega
  have hindex : text.length + (8 - text.length) = 8 := by omega
  have hrange : 8 - text.length < TRACKER_PROTO_PKG_LEN_SIZE - text.length := by omega
  rw [List.getElem?_append_left hlen, fillField, htake, List.getElem?_append_right (by omega),
    List.getElem?_map, List.getElem?_range hrange, Option.map_some, hindex]

/-- The smallest length with eight hexadecimal digits, `0x10000000`. -/
def eightDigits : ℤ := 268435456

theorem length_hexadecimal_lt_iff {n : ℤ} (h0 : 0 ≤ n) (h1 : n ≤ INT_MAX) :
    (hexadecimal n ++ [0]).length < TRACKER_PROTO_PKG_LEN_SIZE ↔ n < eightDigits := by
  have h9 : TRACKER_PROTO_PKG_LEN_SIZE = 9 := rfl
  have hmax : INT_MAX = 2147483647 := rfl
  have hm : ((n % 4294967296).toNat : ℤ) = n := by omega
  have h8 : eightDigits = ((16 ^ 7 : ℕ) : ℤ) := by rfl
  rw [h8, ← hm]
  generalize (n % 4294967296).toNat = m at hm
  rw [Nat.cast_lt, hexadecimal]
  have hmod : (((m : ℤ)) % 4294967296).toNat = m := by omega
  rw [hmod, numeral_eq_map, List.length_append, List.length_map, numeralDigits]
  split_ifs with hz
  · subst hz
    decide
  · have hdigits := Nat.digits_length_le_iff (b := 16) (by decide) m (k := 7)
    rw [List.length_reverse, ← hdigits, List.length_singleton]
    omega

/-- A call whose first field is not filled on a connection that takes everything. -/
theorem exposed_of_field {sent : Locals → Outbound → Bytes}
    (h : ∀ a, ∃ text rest, text.length < TRACKER_PROTO_PKG_LEN_SIZE ∧
      sent a ⟨[], []⟩ = fillField TRACKER_PROTO_PKG_LEN_SIZE text a.stack ++ rest) :
    ¬ ∀ a b : Locals, ∀ out : Outbound, sent a out = sent b out := by
  intro hs
  obtain ⟨text, rest, ht, he⟩ := h ⟨fun _ => 0, 0⟩
  obtain ⟨text', rest', ht', he'⟩ := h ⟨fun _ => 1, 0⟩
  have heq := hs ⟨fun _ => 0, 0⟩ ⟨fun _ => 1, 0⟩ ⟨[], []⟩
  rw [he, he'] at heq
  have hbyte := congrArg (fun l => l[8]?) heq
  simp only [fillField_last ht, fillField_last ht'] at hbyte
  exact absurd (Option.some.inj hbyte) (by decide)

theorem tcpsenddata_ideal (data : Bytes) :
    tcpsenddata ⟨[], []⟩ (some data) = (1, ⟨data, []⟩) := by
  simp [tcpsenddata, sendLoop_nil]

end Fields

section FileReplies
variable {env : RequestEnv} {w : World} {p : Bytes} {status : Errno} {fileBuff : Option Bytes}

/-- The path is read without a failure, and the size of the file has eight digits as an
`int`. -/
def LongRead (f : ReadFaults) (w : World) (p : Bytes) : Prop :=
  ∃ b, f.fopen = none ∧ w.tree.openRead w.cwd p = .ok b ∧ f.fseek = none ∧ f.ftell = false ∧
    f.malloc = none ∧ f.fread = none ∧ eightDigits ≤ wrap32 b.length

theorem length_take_wrap32 (b : Bytes) :
    ((b.take (wrap32 b.length).toNat).length : ℤ) = max 0 (wrap32 b.length) := by
  have hle := wrap32_lt b.length
  have hwrap : wrap32 b.length ≤ b.length := by
    unfold wrap32 at hle ⊢
    omega
  rw [List.length_take]
  omega

/-- A read without a failure. -/
theorem getFileContent_ok {f : ReadFaults} {b : Bytes} (hopen : f.fopen = none)
    (hread : w.tree.openRead w.cwd p = .ok b) (hseek : f.fseek = none) (htell : f.ftell = false)
    (hmalloc : f.malloc = none) (hfread : f.fread = none) (hsize : 0 ≤ wrap32 b.length) :
    (getFileContent f w p).2 = (0, some (b.take (wrap32 b.length).toNat)) := by
  have hsize' : ¬ (f.ftell = true ∨ wrap32 b.length < 0) := by
    rw [htell]
    simpa using hsize
  have hopened : openedFile f w p = .ok (wrap32 b.length, some b) := by rw [openedFile, hread]
  simp only [getFileContent, hopen, hopened, hseek, hsize', if_false, hmalloc, hfread]

/-- A buffer that is not empty comes from a read without a failure. -/
theorem getFileContent_some {f : ReadFaults} {c : Bytes} (hc : c ≠ [])
    (h : (getFileContent f w p).2.2 = some c) : ∃ b, f.fopen = none ∧
      w.tree.openRead w.cwd p = .ok b ∧ f.fseek = none ∧ f.ftell = false ∧ f.malloc = none ∧
        f.fread = none ∧ c = b.take (wrap32 b.length).toNat := by
  unfold getFileContent at h
  dsimp only at h
  split at h
  · cases h
  · rename_i hopen
    split at h
    · cases h
    · rename_i fileSize content hopened
      split at h
      · cases h
      · rename_i hseek
        by_cases hsize : f.ftell = true ∨ fileSize < 0
        · rw [if_pos hsize] at h
          cases h
        · rw [if_neg hsize] at h
          have htell : f.ftell = false := by simpa using fun ht => hsize (.inl ht)
          split at h
          · cases h
          · rename_i hmalloc
            split at h
            · cases h
            · rename_i hfread
              cases content with
              | none =>
                dsimp only at h
                split_ifs at h
                exact absurd (Option.some.inj h).symm hc
              | some b =>
                have hread := openedFile_read hopened
                rw [openedFile_some hopened] at h
                exact ⟨b, hopen, hread, hseek, htell, hmalloc, hfread, (Option.some.inj h).symm⟩

theorem longRead_iff (f : ReadFaults) (w : World) (p : Bytes) :
    LongRead f w p ↔ eightDigits ≤ (((getFileContent f w p).2.2.getD []).length : ℤ) := by
  have hpos : 0 < eightDigits := by simp [eightDigits]
  constructor
  · rintro ⟨b, hopen, hread, hseek, htell, hmalloc, hfread, hlen⟩
    rw [getFileContent_ok hopen hread hseek htell hmalloc hfread (hpos.le.trans hlen),
      Option.getD_some, length_take_wrap32]
    exact le_max_of_le_right hlen
  · intro h
    cases hc : (getFileContent f w p).2.2 with
    | none =>
      rw [hc, Option.getD_none, List.length_nil, Nat.cast_zero] at h
      exact absurd h (not_le.mpr hpos)
    | some c =>
      have hne : c ≠ [] := by
        rintro rfl
        rw [hc, Option.getD_some, List.length_nil, Nat.cast_zero] at h
        exact absurd h (not_le.mpr hpos)
      obtain ⟨b, hopen, hread, hseek, htell, hmalloc, hfread, hb⟩ := getFileContent_some hne hc
      rw [hc, Option.getD_some, hb, length_take_wrap32] at h
      exact ⟨b, hopen, hread, hseek, htell, hmalloc, hfread,
        (le_max_iff.mp h).resolve_left (not_le.mpr hpos)⟩

/-- What a reply with a file sends first is its header. -/
theorem sendFileReply_ideal (env : RequestEnv) (status : Errno) (fileBuff : Option Bytes) :
    ∃ rest, (sendFileReply env ⟨[], []⟩ status fileBuff).1.sent =
      fillField TRACKER_PROTO_PKG_LEN_SIZE (hexadecimal (fileBuff.getD []).length ++ [0]) env.stack ++
        rest := by
  simp only [sendFileReply, tcpsenddata_ideal, ne_eq, not_true_eq_false, if_false]
  by_cases h : status = 0
  · cases fileBuff with
    | none => exact ⟨_, by simp only [h, not_true_eq_false, if_false]; rfl⟩
    | some b =>
      simp only [h, not_true_eq_false, if_false, tcpsenddata, sendLoop_nil, replyHeader,
        Option.getD_some, List.append_assoc]
      exact ⟨_, rfl⟩
  · rw [if_pos h]
    exact ⟨_, rfl⟩

/-- A reply with a file hides the stack exactly when its length has eight digits. -/
theorem sendFileReply_hidden_iff (env : RequestEnv) (status : Errno)
    (hlen : ((fileBuff.getD []).length : ℤ) ≤ INT_MAX) :
    (∀ a b : Locals, ∀ out : Outbound,
      (sendFileReply (withLocals env a) out status fileBuff).1.sent =
        (sendFileReply (withLocals env b) out status fileBuff).1.sent) ↔
      eightDigits ≤ ((fileBuff.getD []).length : ℤ) := by
  have hdigits := length_hexadecimal_lt_iff (Int.natCast_nonneg (fileBuff.getD []).length) hlen
  constructor
  · intro h
    by_contra hlt
    refine exposed_of_field (fun a => ?_) h
    obtain ⟨rest, hrest⟩ := sendFileReply_ideal (withLocals env a) status fileBuff
    exact ⟨_, rest, hdigits.mpr (not_le.mp hlt), hrest⟩
  · intro hle a b out
    have hcovered := not_lt.mp (hdigits.not.mpr (not_lt.mpr hle))
    have hheader : replyHeader (withLocals env a) (fileBuff.getD []).length status =
        replyHeader (withLocals env b) (fileBuff.getD []).length status := by
      rw [replyHeader, replyHeader, fillField_covered hcovered _ (withLocals env b).stack]
    rw [sendFileReply, sendFileReply, hheader]
    rfl

end FileReplies

section Replies
variable (cfg : Config) (env : RequestEnv) (n : ℤ) (body : Inbound) (w : World)

/-- Status and buffer of a download. -/
def downloadAnswer : Errno × Option Bytes :=
  match (recvGroupRequest env n body).2.bind (groupFilename cfg (errnoOr env.errno EINVAL)) with
  | .error e => (e, none)
  | .ok filename => (downloadFile cfg env w filename).2

/-- Status and buffer of a request for metadata. -/
def metadataAnswer : Errno × Option Bytes :=
  match (recvGroupRequest env n body).2.bind (groupFilename cfg EINVAL) with
  | .error e => (e, none)
  | .ok filename => (getMetadata cfg env w filename).2

/-- The reply carries a file whose size has eight digits. -/
def LongFile (cmd : Byte) : Prop :=
  ∃ filename, (recvGroupRequest env n body).2.bind (groupFilename cfg EINVAL) = .ok filename ∧
    (cmd = STORAGE_PROTO_CMD_DOWNLOAD_FILE ∧ LongRead env.read w (dataPath cfg filename) ∨
      cmd = STORAGE_PROTO_CMD_GET_METADATA ∧ w.tree.access w.cwd (dataPath cfg filename) = true ∧
        LongRead env.read w (dataPath cfg filename ++ STORAGE_META_FILE_EXT))

variable {cfg env n body w}

theorem storageDownloadFile_outbound (hheard : (recvGroupRequest env n body).1.Heard)
    (out : Outbound) : (storageDownloadFile cfg env n body out w).outbound = (sendFileReply env out
      (downloadAnswer cfg env n body w).1 (downloadAnswer cfg env n body w).2).1 := by
  rw [storageDownloadFile, withBody, downloadAnswer, Outbound.awaiting_heard hheard]
  cases (recvGroupRequest env n body).2.bind (groupFilename cfg (errnoOr env.errno EINVAL)) with
  | error e => rfl
  | ok filename => rfl

theorem storageGetMetadata_outbound (hheard : (recvGroupRequest env n body).1.Heard)
    (out : Outbound) : (storageGetMetadata cfg env n body out w).outbound = (sendFileReply env out
      (metadataAnswer cfg env n body w).1 (metadataAnswer cfg env n body w).2).1 := by
  rw [storageGetMetadata, withBody, metadataAnswer, Outbound.awaiting_heard hheard]
  cases (recvGroupRequest env n body).2.bind (groupFilename cfg EINVAL) with
  | error e => rfl
  | ok filename => rfl

theorem bind_groupFilename_congr (cfg : Config) (recv : Except Errno Bytes) (e e' : Errno)
    (filename : Bytes) : recv.bind (groupFilename cfg e) = .ok filename ↔
      recv.bind (groupFilename cfg e') = .ok filename := by
  cases recv with
  | error r => exact Iff.rfl
  | ok data => exact ⟨fun h => groupFilename_ok h e', fun h => groupFilename_ok h e⟩

theorem none_le : (((none : Option Bytes).getD []).length : ℤ) ≤ INT_MAX := by decide

theorem length_fileBuff_le (f : ReadFaults) (w : World) (p : Bytes) :
    (((getFileContent f w p).2.2.getD []).length : ℤ) ≤ INT_MAX := by
  obtain ⟨-, b, hb, hlen⟩ | ⟨-, hnone⟩ := getFileContent_cases f w p
  · rwa [hb]
  · rw [hnone]
    exact none_le

theorem length_downloadAnswer_le (cfg : Config) (env : RequestEnv) (n : ℤ) (body : Inbound)
    (w : World) : (((downloadAnswer cfg env n body w).2.getD []).length : ℤ) ≤ INT_MAX := by
  unfold downloadAnswer
  split
  · exact none_le
  · exact length_fileBuff_le _ _ _

theorem length_metadataAnswer_le (cfg : Config) (env : RequestEnv) (n : ℤ) (body : Inbound)
    (w : World) : (((metadataAnswer cfg env n body w).2.getD []).length : ℤ) ≤ INT_MAX := by
  unfold metadataAnswer
  split
  · exact none_le
  · simp only [getMetadata]
    split
    · exact none_le
    · exact length_fileBuff_le _ _ _

theorem none_short : ¬ eightDigits ≤ (((none : Option Bytes).getD []).length : ℤ) := by
  simp [eightDigits]

theorem downloadAnswer_long_iff : eightDigits ≤
    (((downloadAnswer cfg env n body w).2.getD []).length : ℤ) ↔
      LongFile cfg env n body w STORAGE_PROTO_CMD_DOWNLOAD_FILE := by
  have hcongr := bind_groupFilename_congr cfg (recvGroupRequest env n body).2
    (errnoOr env.errno EINVAL) EINVAL
  have hcmd : STORAGE_PROTO_CMD_DOWNLOAD_FILE ≠ STORAGE_PROTO_CMD_GET_METADATA := by decide
  simp only [LongFile, hcmd, false_and, or_false, true_and, ← hcongr, downloadAnswer]
  cases (recvGroupRequest env n body).2.bind (groupFilename cfg (errnoOr env.errno EINVAL)) with
  | error e =>
    refine iff_of_false none_short ?_
    rintro ⟨filename, hname, -⟩
    cases hname
  | ok filename =>
    simp only [downloadFile, ← longRead_iff, Except.ok.injEq, exists_eq_left']

theorem metadataAnswer_long_iff : eightDigits ≤
    (((metadataAnswer cfg env n body w).2.getD []).length : ℤ) ↔
      LongFile cfg env n body w STORAGE_PROTO_CMD_GET_METADATA := by
  have hcmd : STORAGE_PROTO_CMD_GET_METADATA ≠ STORAGE_PROTO_CMD_DOWNLOAD_FILE := by decide
  simp only [LongFile, hcmd, false_and, false_or, true_and, metadataAnswer]
  cases (recvGroupRequest env n body).2.bind (groupFilename cfg EINVAL) with
  | error e =>
    refine iff_of_false none_short ?_
    rintro ⟨filename, hname, -⟩
    cases hname
  | ok filename =>
    have hread : LongRead env.read w (dataPath cfg filename ++ STORAGE_META_FILE_EXT) ↔ _ :=
      longRead_iff env.read (w.touch (dataPath cfg filename)) _
    simp only [Except.ok.injEq, exists_eq_left', getMetadata, fileExists, hread]
    by_cases hx : w.tree.access w.cwd (dataPath cfg filename) = true
    · simp only [hx, Bool.not_true, Bool.false_eq_true, if_false, true_and]
    · simp only [hx, Bool.not_false, if_true]
      exact iff_of_false none_short fun h => Bool.false_ne_true h.1

/-- A handler whose replies announce short bodies shows the stack. -/
theorem exposed_of_reply (env : RequestEnv) {sent : Locals → Outbound → Bytes}
    (h : ∀ a, ∃ (k : ℤ) (status : Errno) (rest : Bytes), 0 ≤ k ∧ k < eightDigits ∧
      sent a ⟨[], []⟩ = replyHeader (withLocals env a) k status ++ rest) :
    ¬ ∀ a b : Locals, ∀ out : Outbound, sent a out = sent b out := by
  refine exposed_of_field fun a => ?_
  obtain ⟨k, status, rest, h0, h1, hsent⟩ := h a
  have hmax : k ≤ INT_MAX := by
    simp only [eightDigits, INT_MAX] at h1 ⊢
    omega
  refine ⟨_, [STORAGE_PROTO_CMD_RESP, status] ++ rest,
    (length_hexadecimal_lt_iff h0 hmax).mpr h1, ?_⟩
  rw [hsent, replyHeader, List.append_assoc]
  rfl

/-- So do the replies without a body. -/
theorem exposed_of_header (env : RequestEnv) {sent : Locals → Outbound → Bytes}
    (h : ∀ a, ∃ status, sent a ⟨[], []⟩ = replyHeader (withLocals env a) 0 status) :
    ¬ ∀ a b : Locals, ∀ out : Outbound, sent a out = sent b out := by
  refine exposed_of_reply env fun a => ?_
  obtain ⟨status, hsent⟩ := h a
  exact ⟨0, status, [], le_rfl, by simp [eightDigits], by rw [hsent, List.append_nil]⟩

/-- The reply to an upload announces a name. -/
theorem uploadReply_short (env : RequestEnv) (status : Errno) {filename : Bytes}
    (hlen : filename.length ≤ 246) :
    ∃ (k : ℤ) (status' : Errno) (rest : Bytes), 0 ≤ k ∧ k < eightDigits ∧
      (if status = 0 then replyHeader env filename.length status ++ filename
        else replyHeader env 0 status) = replyHeader env k status' ++ rest := by
  have hpos : (0 : ℤ) < eightDigits := by simp [eightDigits]
  split_ifs
  · refine ⟨filename.length, status, filename, Int.natCast_nonneg _, ?_, rfl⟩
    simp only [eightDigits]
    omega
  · exact ⟨0, status, [], le_rfl, hpos, (List.append_nil _).symm⟩

/-- A handler whose every reply shows the stack hides it exactly by not replying. -/
theorem replyWhenAlive_hidden_iff {sent : Locals → Outbound → Bytes} {s : Inbound}
    {status : Option Errno} {send : Locals → Outbound → Errno → Outbound × Errno}
    (hsent : ∀ a out, sent a out = (replyWhenAlive (out.awaiting s) status (send a out)).1.sent)
    (hexposed : ∀ status, ¬ ∀ (a b : Locals) (out : Outbound),
      (send a out status).1.sent = (send b out status).1.sent) :
    (∀ (a b : Locals) (out : Outbound), sent a out = sent b out) ↔ status = none := by
  cases status with
  | none =>
    refine iff_of_true (fun a b out => ?_) rfl
    rw [hsent, hsent]
    rfl
  | some status =>
    refine iff_of_false (fun h => hexposed status fun a b out => ?_) (by simp)
    have heq := h a b out
    rwa [hsent, hsent] at heq

end Replies

section Messages
variable {cfg : Config}

/-- Every byte is written: the package is built in cleared memory, no package is sent, or eight
digits fill the field of a reply. No reply is sent to a client that waits for it, nor to one
whose request ends the process. -/
def Covered (cfg : Config) : Message → Prop
  | .reply env cmd n body w => handler cfg env cmd = none ∨
      ¬ (receiveBody env cmd n body).1.Heard ∨
      KillsProcess cfg env cmd n body w ∨
      LongFile cfg env n body w cmd
  | .reportStat _ sizes => sizes = none
  | .quit _ | .heartBeat _ _ _ _ => False
  | .join _ _ | .syncNotify _ _ | .syncDestReq _ _ _ => True

theorem handler_withLocals (env : RequestEnv) (a : Locals) (cmd : Byte) :
    handler cfg (withLocals env a) cmd = none ↔ handler cfg env cmd = none := by
  have hite {f : ℤ → Inbound → Outbound → World → Handled} {c : Prop} [Decidable c]
      {o : Option (ℤ → Inbound → Outbound → World → Handled)} :
      (if c then some f else o) = none ↔ ¬ c ∧ o = none := by
    by_cases hc : c
    · simp [hc]
    · simp [hc]
  simp only [handler, hite]

theorem longFile_cmd {env : RequestEnv} {n : ℤ} {body : Inbound} {w : World} {cmd : Byte}
    (h : LongFile cfg env n body w cmd) : cmd = STORAGE_PROTO_CMD_DOWNLOAD_FILE ∨
      cmd = STORAGE_PROTO_CMD_GET_METADATA := by
  obtain ⟨filename, -, ⟨hc, -⟩ | ⟨hc, -, -⟩⟩ := h
  · exact .inl hc
  · exact .inr hc

/-- What is sent to a client that is heard from again. -/
theorem sent_heard {s : Inbound} (h : s.Heard) (data : Bytes) :
    (tcpsenddata (Outbound.awaiting s ⟨[], []⟩) (some data)).2.sent = data := by
  rw [Outbound.awaiting_heard h, tcpsenddata_ideal]

/-- A client that waits receives nothing, whatever the locals hold. -/
theorem sent_unheard {env : RequestEnv} {cmd : Byte} {n : ℤ} {body : Inbound} (w : World)
    (h : ¬ (receiveBody env cmd n body).1.Heard) (a : Locals) (out : Outbound) :
    Message.sent cfg a out (.reply env cmd n body w) = out.sent := by
  cases hf : handler cfg (withLocals env a) cmd with
  | none => simp only [Message.sent, hf]
  | some f =>
    simp only [Message.sent, hf]
    exact (handler_unheard hf h out w).1

/-- A reply that is a header only hides the stack when it is not sent. -/
theorem headerReply_hidden_iff (env : RequestEnv) {sent : Locals → Outbound → Bytes} {s : Inbound}
    (hheard : s.Heard) {status : Option Errno}
    {send : Locals → Outbound → Errno → Outbound × Errno}
    (hsent : ∀ a out, sent a out = (replyWhenAlive (out.awaiting s) status (send a out)).1.sent)
    (hsend : ∀ a out status, (send a out status).1 =
      (tcpsenddata (out.awaiting s) (some (replyHeader (withLocals env a) 0 status))).2) :
    (∀ (a b : Locals) (out : Outbound), sent a out = sent b out) ↔ status = none := by
  refine replyWhenAlive_hidden_iff hsent fun status => exposed_of_header env fun a => ?_
  refine ⟨status, ?_⟩
  rw [hsend]
  exact sent_heard hheard _

/-- A reply hides the stack exactly when it is not sent or it carries a long file. -/
theorem reply_hidden_iff (hsep : cfg.base64.lineSeparator.length ≤ 16) (env : RequestEnv)
    (cmd : Byte) (n : ℤ) (body : Inbound) (w : World) :
    Hidden cfg (.reply env cmd n body w) ↔ Covered cfg (.reply env cmd n body w) := by
  by_cases hheard : (receiveBody env cmd n body).1.Heard
  swap
  · refine iff_of_true (fun a b out => ?_) (.inr (.inl hheard))
    rw [sent_unheard w hheard, sent_unheard w hheard]
  cases hf : handler cfg env cmd with
  | none =>
    refine iff_of_true (fun a b out => ?_) (.inl hf)
    simp only [Message.sent, (handler_withLocals env _ cmd).mpr hf]
  | some f =>
    have hcovered (hset : cmd ≠ STORAGE_PROTO_CMD_SET_METADATA) (hstore : ¬ isStoreCmd cmd) :
        Covered cfg (.reply env cmd n body w) ↔ LongFile cfg env n body w cmd := by
      simp [Covered, hf, hheard, KillsProcess, hset, hstore]
    have hdies (hd : cmd ≠ STORAGE_PROTO_CMD_DOWNLOAD_FILE)
        (hm : cmd ≠ STORAGE_PROTO_CMD_GET_METADATA) :
        KillsProcess cfg env cmd n body w ↔ Covered cfg (.reply env cmd n body w) := by
      have hshort : ¬ LongFile cfg env n body w cmd := fun h => (longFile_cmd h).elim hd hm
      simp [Covered, hf, hheard, hshort]
    cases handles_of_handler hf with
    | downloadFile =>
      rw [hcovered (by decide) (by decide), ← downloadAnswer_long_iff, ← sendFileReply_hidden_iff env
        (downloadAnswer cfg env n body w).1 (length_downloadAnswer_le _ _ _ _ _)]
      refine forall_congr' fun a => forall_congr' fun b => forall_congr' fun out => ?_
      have hsent (a : Locals) :
          Message.sent cfg a out (.reply env STORAGE_PROTO_CMD_DOWNLOAD_FILE n body w) =
            (storageDownloadFile cfg (withLocals env a) n body out w).outbound.sent := rfl
      have hbody (a : Locals) : (recvGroupRequest (withLocals env a) n body).1.Heard := hheard
      rw [hsent, hsent, storageDownloadFile_outbound (hbody a),
        storageDownloadFile_outbound (hbody b)]
      rfl
    | getMetadata =>
      rw [hcovered (by decide) (by decide), ← metadataAnswer_long_iff, ← sendFileReply_hidden_iff env
        (metadataAnswer cfg env n body w).1 (length_metadataAnswer_le _ _ _ _ _)]
      refine forall_congr' fun a => forall_congr' fun b => forall_congr' fun out => ?_
      have hsent (a : Locals) :
          Message.sent cfg a out (.reply env STORAGE_PROTO_CMD_GET_METADATA n body w) =
            (storageGetMetadata cfg (withLocals env a) n body out w).outbound.sent := rfl
      have hbody (a : Locals) : (recvGroupRequest (withLocals env a) n body).1.Heard := hheard
      rw [hsent, hsent, storageGetMetadata_outbound (hbody a),
        storageGetMetadata_outbound (hbody b)]
      rfl
    | uploadFile =>
      rw [← hdies (by decide) (by decide), ← upload_dies_iff]
      refine replyWhenAlive_hidden_iff (s := (recvAllocated env 0 sizeofPointer n body).1)
        (fun a out => rfl) fun status => exposed_of_reply env fun a => ?_
      have hbody : (recvAllocated (withLocals env a) 0 sizeofPointer n body).1.Heard := hheard
      dsimp only
      rw [Outbound.awaiting_heard hbody, tcpsenddata_ideal]
      refine uploadReply_short (withLocals env a) status ?_
      split
      · exact Nat.zero_le _
      · exact length_uploadFile_le hsep _
    | deleteFile =>
      rw [← hdies (by decide) (by decide), ← delete_dies_iff]
      exact headerReply_hidden_iff env hheard (fun a out => rfl) fun a out status => rfl
    | syncCreateFile =>
      rw [← hdies (by decide) (by decide), ← syncCopy_dies_iff (.inl rfl)]
      exact headerReply_hidden_iff env hheard (fun a out => rfl) fun a out status => rfl
    | syncDeleteFile =>
      rw [← hdies (by decide) (by decide), ← syncDelete_dies_iff]
      exact headerReply_hidden_iff env hheard (fun a out => rfl) fun a out status => rfl
    | syncUpdateFile =>
      rw [← hdies (by decide) (by decide), ← syncCopy_dies_iff (.inr rfl)]
      exact headerReply_hidden_iff env hheard (fun a out => rfl) fun a out status => rfl
    | setMetadata =>
      rw [← hdies (by decide) (by decide), ← setMetadata_dies_iff]
      exact headerReply_hidden_iff env hheard (fun a out => rfl) fun a out status => rfl

theorem quit_exposed (errno : Errno) : ¬ Hidden cfg (.quit errno) := by
  refine exposed_of_field fun a => ⟨[48, 0], [TRACKER_PROTO_CMD_STORAGE_QUIT, 0], by decide, ?_⟩
  simp only [Message.sent, trackerQuit, sendPackage, tcpsenddata_ideal]

theorem heartBeat_exposed (errno : Errno) (statChgSyncCount statChangeCount : ℤ)
    (s : FDFSStorageStat) : ¬ Hidden cfg (.heartBeat errno statChgSyncCount statChangeCount s) := by
  refine exposed_of_field fun a => ?_
  simp only [Message.sent, trackerHeartBeat, sendPackage, tcpsenddata_ideal, beatPackage]
  split_ifs
  · refine ⟨hexadecimal (statBuff s).length ++ [0],
      [TRACKER_PROTO_CMD_STORAGE_BEAT, 0] ++ statBuff s, ?_, ?_⟩
    · rw [length_statBuff]
      decide
    · rw [beatHeader, List.append_assoc]
  · exact ⟨hexadecimal 0 ++ [0], [TRACKER_PROTO_CMD_STORAGE_BEAT, 0], by decide, rfl⟩

theorem reportStat_exposed (errno : Errno) (totalMb freeMb : ℤ) :
    ¬ Hidden cfg (.reportStat errno (some (totalMb, freeMb))) := by
  refine exposed_of_field fun a => ⟨hexadecimal sizeofStatReportBody ++ [0],
    [TRACKER_PROTO_CMD_STORAGE_REPORT, 0] ++ (int2buff totalMb ++ int2buff freeMb), by decide, ?_⟩
  simp only [Message.sent, trackerReportStat, sendPackage, tcpsenddata_ideal]

/-- A message hides the stack exactly when every byte of it is written. `line_separator` is an
array of sixteen bytes. -/
theorem hidden_iff_covered (hsep : cfg.base64.lineSeparator.length ≤ 16) (m : Message) :
    Hidden cfg m ↔ Covered cfg m := by
  cases m with
  | reply env cmd n body w => exact reply_hidden_iff hsep env cmd n body w
  | quit errno => exact iff_of_false (quit_exposed errno) id
  | heartBeat errno mark count s => exact iff_of_false (heartBeat_exposed errno mark count s) id
  | reportStat errno sizes =>
    cases sizes with
    | none => exact iff_of_true (fun a b out => rfl) rfl
    | some sizes => exact iff_of_false (reportStat_exposed errno _ _) (Option.some_ne_none _)
  | join errno serverPort => exact iff_of_true (fun a b out => rfl) trivial
  | syncNotify errno s => exact iff_of_true (fun a b out => rfl) trivial
  | syncDestReq e inb g => exact iff_of_true (fun a b out => rfl) trivial

/-- The reply to a delete does not hide the stack. -/
theorem sampleDelete_covered_iff : Hidden sampleConfig (.reply {} STORAGE_PROTO_CMD_DELETE_FILE 17
    ⟨downloadBody sampleConfig (ascii "x"), []⟩ BinlogWriting.sampleWorld) ↔
      Covered sampleConfig (.reply {} STORAGE_PROTO_CMD_DELETE_FILE 17
        ⟨downloadBody sampleConfig (ascii "x"), []⟩ BinlogWriting.sampleWorld) :=
  hidden_iff_covered (by decide) _

/-- A client that has a file deleted receives seven bytes of the stack, and so does the tracker
at the end of a session. -/
theorem delete_and_quit_show_stack :
    ¬ Hidden sampleConfig (.reply {} STORAGE_PROTO_CMD_DELETE_FILE 17
        ⟨downloadBody sampleConfig (ascii "x"), []⟩ BinlogWriting.sampleWorld) ∧
      Message.sent sampleConfig ⟨fun i => UInt8.ofNat i, 0⟩ ⟨[], []⟩ (.quit 0) =
        [48, 0, 2, 3, 4, 5, 6, 7, 8, TRACKER_PROTO_CMD_STORAGE_QUIT, 0] := by
  refine ⟨fun h => ?_, by decide⟩
  have heq := h ⟨fun _ => 0, 0⟩ ⟨fun _ => 1, 0⟩ ⟨[], []⟩
  exact absurd heq (by decide +kernel)

end Messages

end DemoStorage.WireContents
