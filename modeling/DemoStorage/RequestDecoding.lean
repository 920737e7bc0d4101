import DemoStorage.ConnectionFraming
import DemoStorage.TrackerProtocol

/-!
# Requests decode to what was encoded

A client lays out a copy, a `set_metadata` and the four requests with a group name and a file
name as the handlers document. Whatever the chunks in which a package arrives, its handler gets
exactly the operation the client asked for.
-/

namespace DemoStorage.RequestDecoding
open ByteStrings PosixFileTree SocketTransfers DaemonState BinlogWriting RequestHandlers
open ServiceThread (handler handles_of_handler)
open ConnectionFraming TrackerProtocol

/-- The commands of a group name and a file name. -/
def isNamed (cmd : Byte) : Prop :=
  cmd = STORAGE_PROTO_CMD_DELETE_FILE ∨ cmd = STORAGE_PROTO_CMD_DOWNLOAD_FILE ∨
    cmd = STORAGE_PROTO_CMD_GET_METADATA ∨ cmd = STORAGE_PROTO_CMD_SYNC_DELETE_FILE

theorem isNamed.ne {cmd : Byte} (h : isNamed cmd) : cmd ≠ STORAGE_PROTO_CMD_UPLOAD_FILE ∧
    ¬ isSyncCopy cmd ∧ cmd ≠ STORAGE_PROTO_CMD_SET_METADATA := by
  rcases h with rfl | rfl | rfl | rfl <;> decide

theorem ne_upload_of_isSyncCopy {cmd : Byte} (h : isSyncCopy cmd) :
    cmd ≠ STORAGE_PROTO_CMD_UPLOAD_FILE := by
  rcases h with rfl | rfl <;> decide

/-- A file name that an array of `limit` bytes holds with its NUL. -/
structure Filename (limit : ℕ) where
  bytes : Bytes
  cstr : 0 ∉ bytes
  pos : 0 < bytes.length
  lt : bytes.length < limit

/-- What a client asks for. -/
inductive SentRequest where
  | syncCopy (protoCmd : Byte) (hcmd : isSyncCopy protoCmd) (filename : Filename 128)
      (content : Bytes)
  | setMetadata (filename : Filename 32) (merge : Bool) (metaBuff : Bytes)
  | named (protoCmd : Byte) (hcmd : isNamed protoCmd) (filename : Filename 32)

/-- What a handler gets out of a package. -/
inductive Operation where
  | syncCopy (protoCmd : Byte) (req : SyncCopyRequest)
  | setMetadata (req : SetMetadataRequest)
  | named (protoCmd : Byte) (filename : Bytes)
  deriving DecidableEq

def opFlag (merge : Bool) : Byte :=
  if merge then STORAGE_SET_METADATA_FLAG_MERGE else STORAGE_SET_METADATA_FLAG_OVERWRITE

namespace SentRequest

def cmd : SentRequest → Byte
  | syncCopy protoCmd _ _ _ => protoCmd
  | setMetadata _ _ _ => STORAGE_PROTO_CMD_SET_METADATA
  | named protoCmd _ _ => protoCmd

def operation : SentRequest → Operation
  | syncCopy protoCmd _ filename content => .syncCopy protoCmd ⟨filename.bytes, content⟩
  | setMetadata filename merge metaBuff => .setMetadata ⟨filename.bytes, opFlag merge, metaBuff⟩
  | named protoCmd _ filename => .named protoCmd filename.bytes

end SentRequest

/-- A length as `%x` prints it into a cleared field. -/
def lengthField (n : ℕ) : Bytes := padField TRACKER_PROTO_PKG_LEN_SIZE (hexadecimal n)

def groupField (groupName : Bytes) : Bytes := padField FDFS_GROUP_NAME_MAX_LEN.toNat groupName

/-- The package of a request, as the comments of the handlers lay it out. -/
def package (groupName : Bytes) : SentRequest → Bytes
  | .syncCopy _ _ filename content =>
    lengthField filename.bytes.length ++ (lengthField content.length ++ (groupField groupName ++
      (filename.bytes ++ content)))
  | .setMetadata filename merge metaBuff =>
    lengthField filename.bytes.length ++ (lengthField metaBuff.length ++ (opFlag merge ::
      (groupField groupName ++ (filename.bytes ++ metaBuff))))
  | .named _ _ filename => groupField groupName ++ filename.bytes

/-- The operation of a body that was received. -/
def parseOperation (cfg : Config) (env : RequestEnv) (cmd : Byte) (nInPackLen : ℤ)
    (data : Bytes) : Except Errno Operation :=
  if isSyncCopy cmd then (parseSyncCopy cfg nInPackLen data).map (.syncCopy cmd)
  else if cmd = STORAGE_PROTO_CMD_SET_METADATA then
    (parseSetMetadata cfg nInPackLen data).map .setMetadata
  else
    -- only a download reads the status of a wrong group name from errno
    (groupFilename cfg (if cmd = STORAGE_PROTO_CMD_DOWNLOAD_FILE then errnoOr env.errno EINVAL
      else EINVAL) data).map (.named cmd)

/-- The receiving and the parsing part of the handler of a command. -/
def decode (cfg : Config) (env : RequestEnv) (cmd : Byte) (nInPackLen : ℤ) (inb : Inbound) :
    Except Errno Operation :=
  (receiveBody env cmd nInPackLen inb).2.bind (parseOperation cfg env cmd nInPackLen)

section Fields

theorem length_padField {n : ℕ} {text : Bytes} (h : text.length ≤ n) :
    (padField n text).length = n := by
  rw [padField, List.length_append, List.length_replicate]
  omega

theorem length_lengthField (n : ℕ) : (lengthField n).length = 9 :=
  length_padField ((length_hexadecimal_le n).trans (by decide))

/-- A length that fits an `int` is read back, whatever stands behind its field. -/
theorem decoded_lengthField {n : ℕ} (h : (n : ℤ) ≤ INT_MAX) (rest : Bytes) :
    wrap32 (strtol 16 (lengthField n ++ rest)) = n := by
  have hlen := length_hexadecimal_le n
  obtain ⟨k, hk⟩ : ∃ k, TRACKER_PROTO_PKG_LEN_SIZE - (hexadecimal n).length = k + 1 := by
    refine ⟨8 - (hexadecimal n).length, ?_⟩
    rw [TRACKER_PROTO_PKG_LEN_SIZE]
    omega
  have hfield : lengthField n ++ rest = hexadecimal n ++ 0 :: (List.replicate k 0 ++ rest) := by
    rw [lengthField, padField, hk, List.replicate_succ, List.append_assoc, List.cons_append]
  rw [INT_MAX] at h
  rw [hfield, strtol_hexadecimal (by omega) (by omega), wrap32_eq (by omega) (by omega)]

theorem length_groupField (cfg : Config) : (groupField cfg.groupName).length = 16 := by
  have hlen := cfg.groupName_length
  rw [FDFS_GROUP_NAME_MAX_LEN] at hlen
  refine length_padField ?_
  rw [FDFS_GROUP_NAME_MAX_LEN]
  omega

/-- The group name is read back, also when it fills its field. -/
theorem cstr_groupField (cfg : Config) : cstr (groupField cfg.groupName) = cfg.groupName := by
  have hzeros (k : ℕ) : cstr (List.replicate k 0) = [] := by
    cases k <;> rfl
  rw [groupField, padField, cstr_append cfg.groupName_cstr, hzeros, List.append_nil]

/-- The two lengths at the front of a package, and what stands behind them. -/
theorem decoded_lengths {a b : ℕ} (ha : (a : ℤ) ≤ INT_MAX) (hb : (b : ℤ) ≤ INT_MAX) (rest : Bytes) :
    wrap32 (strtol 16 (lengthField a ++ (lengthField b ++ rest))) = a ∧
      wrap32 (strtol 16 ((lengthField a ++ (lengthField b ++ rest)).drop
        TRACKER_PROTO_PKG_LEN_SIZE)) = b ∧
      ∀ k, (lengthField a ++ (lengthField b ++ rest)).drop (18 + k) = rest.drop k := by
  have hdrop : (lengthField a ++ (lengthField b ++ rest)).drop 9 = lengthField b ++ rest :=
    List.drop_left' (length_lengthField a)
  refine ⟨decoded_lengthField ha _, ?_, fun k => ?_⟩
  · rw [TRACKER_PROTO_PKG_LEN_SIZE, hdrop, decoded_lengthField hb]
  · have hsplit : 18 + k = 9 + (9 + k) := by omega
    rw [hsplit, ← List.drop_drop, hdrop, ← List.drop_drop, List.drop_left' (length_lengthField b)]

/-- The group name at the front of a package, and what stands behind it. -/
theorem decoded_group (cfg : Config) (rest : Bytes) :
    cstr ((groupField cfg.groupName ++ rest).take 16) = cfg.groupName ∧
      ∀ k, (groupField cfg.groupName ++ rest).drop (16 + k) = rest.drop k := by
  refine ⟨?_, fun k => ?_⟩
  · rw [List.take_left' (length_groupField cfg), cstr_groupField]
  · rw [← List.drop_drop, List.drop_left' (length_groupField cfg)]

theorem length_package_syncCopy (cfg : Config) {protoCmd : Byte} (hcmd : isSyncCopy protoCmd)
    (filename : Filename 128) (content : Bytes) :
    (package cfg.groupName (.syncCopy protoCmd hcmd filename content)).length =
      34 + filename.bytes.length + content.length := by
  simp only [package, List.length_append, length_lengthField, length_groupField]
  omega

theorem length_package_setMetadata (cfg : Config) (filename : Filename 32) (merge : Bool)
    (metaBuff : Bytes) : (package cfg.groupName (.setMetadata filename merge metaBuff)).length =
      35 + filename.bytes.length + metaBuff.length := by
  simp only [package, List.length_append, List.length_cons, length_lengthField, length_groupField]
  omega

theorem length_package_named (cfg : Config) {protoCmd : Byte} (hcmd : isNamed protoCmd)
    (filename : Filename 32) : (package cfg.groupName (.named protoCmd hcmd filename)).length =
      16 + filename.bytes.length := by
  simp only [package, List.length_append, length_groupField]

end Fields

section Parsing
variable {cfg : Config}

theorem parseSyncCopy_package {protoCmd : Byte} {hcmd : isSyncCopy protoCmd}
    {filename : Filename 128} {content : Bytes} {n : ℤ}
    (hn : n = (package cfg.groupName (.syncCopy protoCmd hcmd filename content)).length)
    (hlen : n < INT_MAX) :
    parseSyncCopy cfg n (package cfg.groupName (.syncCopy protoCmd hcmd filename content)) =
      .ok ⟨filename.bytes, content⟩ := by
  have hpos := filename.pos
  have hlt := filename.lt
  have hsize := hn
  rw [length_package_syncCopy] at hsize
  have hbuff : package cfg.groupName (.syncCopy protoCmd hcmd filename content) ++ [0] =
      lengthField filename.bytes.length ++ (lengthField content.length ++
        (groupField cfg.groupName ++ (filename.bytes ++ (content ++ [0])))) := by
    simp only [package, List.append_assoc]
  obtain ⟨hname, hcontent, hdrop⟩ := decoded_lengths (a := filename.bytes.length)
    (b := content.length) (by omega) (by omega)
    (groupField cfg.groupName ++ (filename.bytes ++ (content ++ [0])))
  obtain ⟨hgroup, hdrop'⟩ := decoded_group cfg (filename.bytes ++ (content ++ [0]))
  rw [← hbuff] at hname hcontent hdrop
  have h18 := hdrop 0
  have h34 := (hdrop 16).trans (hdrop' 0)
  have hend := ((hdrop (16 + filename.bytes.length)).trans (hdrop' _)).trans List.drop_left
  rw [List.drop_zero] at h18 h34
  rw [← Nat.add_assoc] at hend
  have hpositive : ¬ ((filename.bytes.length : ℤ) ≤ 0 ∨ 128 ≤ (filename.bytes.length : ℤ)) := by
    omega
  have hnonneg : ¬ (content.length : ℤ) < 0 := by omega
  have hrest : (content.length : ℤ) = n - (34 + filename.bytes.length) := by omega
  simp only [parseSyncCopy, hname, hcontent, hpositive, hnonneg, h18, hgroup, ← hrest, h34, hend,
    Int.toNat_natCast, cstr_eq_self filename.cstr, List.take_left, ne_eq, not_true_eq_false,
    if_false]

theorem parseSetMetadata_package {filename : Filename 32} {merge : Bool} {metaBuff : Bytes} {n : ℤ}
    (hn : n = (package cfg.groupName (.setMetadata filename merge metaBuff)).length)
    (hlen : n < INT_MAX) :
    parseSetMetadata cfg n (package cfg.groupName (.setMetadata filename merge metaBuff)) =
      .ok ⟨filename.bytes, opFlag merge, metaBuff⟩ := by
  have hpos := filename.pos
  have hlt := filename.lt
  have hsize := hn
  rw [length_package_setMetadata] at hsize
  have hbuff : package cfg.groupName (.setMetadata filename merge metaBuff) ++ [0] =
      lengthField filename.bytes.length ++ (lengthField metaBuff.length ++
        (opFlag merge :: (groupField cfg.groupName ++ (filename.bytes ++ (metaBuff ++ [0]))))) := by
    simp only [package, List.append_assoc, List.cons_append]
  obtain ⟨hname, hmeta, hdrop⟩ := decoded_lengths (a := filename.bytes.length)
    (b := metaBuff.length) (by omega) (by omega)
    (opFlag merge :: (groupField cfg.groupName ++ (filename.bytes ++ (metaBuff ++ [0]))))
  obtain ⟨hgroup, hdrop'⟩ := decoded_group cfg (filename.bytes ++ (metaBuff ++ [0]))
  rw [← hbuff] at hname hmeta hdrop
  have hflag := hdrop 0
  have hskip (k : ℕ) := (hdrop (k + 1)).trans List.drop_succ_cons
  have h19 := hskip 0
  have h35 := (hskip 16).trans (hdrop' 0)
  have hend := ((hskip (16 + filename.bytes.length)).trans (hdrop' _)).trans List.drop_left
  have hplace : 18 + (16 + filename.bytes.length + 1) = 35 + filename.bytes.length := by omega
  rw [List.drop_zero] at hflag h19 h35
  rw [hplace] at hend
  have hpositive : ¬ ((filename.bytes.length : ℤ) ≤ 0 ∨ 32 ≤ (filename.bytes.length : ℤ)) := by
    omega
  have hknown : ¬ (opFlag merge ≠ STORAGE_SET_METADATA_FLAG_OVERWRITE ∧
      opFlag merge ≠ STORAGE_SET_METADATA_FLAG_MERGE) := by
    cases merge <;> decide
  have hrest : ¬ ((metaBuff.length : ℤ) < 0 ∨
      (metaBuff.length : ℤ) ≠ n - (35 + filename.bytes.length)) := by
    omega
  simp only [parseSetMetadata, hname, hmeta, hpositive, hflag, List.headD_cons, hknown, hrest, h19,
    hgroup, h35, hend, Int.toNat_natCast, cstr_eq_self filename.cstr, List.take_left, ne_eq,
    not_true_eq_false, if_false]

theorem groupFilename_package {protoCmd : Byte} {hcmd : isNamed protoCmd} {filename : Filename 32}
    (mismatch : Errno) :
    groupFilename cfg mismatch (package cfg.groupName (.named protoCmd hcmd filename)) =
      .ok filename.bytes := by
  obtain ⟨hgroup, hdrop⟩ := decoded_group cfg filename.bytes
  have h16 := hdrop 0
  rw [List.drop_zero] at h16
  have hsize : FDFS_GROUP_NAME_MAX_LEN.toNat = 16 := rfl
  rw [groupFilename, package, hsize, hgroup, if_neg (not_not.mpr rfl), h16,
    cstr_eq_self filename.cstr]

end Parsing

section Handlers

/-- What an operation does to the world, with its status if there is one. -/
def operate (cfg : Config) (env : RequestEnv) (w : World) : Operation → World × Option Errno
  | .syncCopy protoCmd req => syncCopyFile cfg env protoCmd w req
  | .setMetadata req => setMetadata cfg env w req
  | .named protoCmd filename =>
    if protoCmd = STORAGE_PROTO_CMD_DELETE_FILE then deleteFile cfg env w filename
    else if protoCmd = STORAGE_PROTO_CMD_SYNC_DELETE_FILE then syncDeleteFile cfg env w filename
    else if protoCmd = STORAGE_PROTO_CMD_GET_METADATA then
      (getMetadata cfg env w filename).map id fun x => some x.1
    else (downloadFile cfg env w filename).map id fun x => some x.1

/-- A handler that parses its body and acts on what it parsed acts as the operation it decodes. -/
theorem operates_of_parse {cfg : Config} {env : RequestEnv} {cmd : Byte} {n : ℤ} {w : World}
    {recv : Inbound × Except Errno Bytes} {out : Outbound}
    {finish : Outbound → Except Errno Bytes → Outbound × World × Errno}
    {inb : Inbound} {α : Type} (parse : Bytes → Except Errno α) (op : α → Operation)
    (hrecv : receiveBody env cmd n inb = recv)
    (hparse : ∀ data, parseOperation cfg env cmd n data = (parse data).map op)
    (hfinish : ∀ out req r, req.bind parse = r → (finish out req).2.1 = match r with
      | .ok a => (operate cfg env w (op a)).1
      | .error _ => w) :
    (withBody recv out finish).world = match decode cfg env cmd n inb with
      | .ok op => (operate cfg env w op).1
      | .error _ => w := by
  subst hrecv
  rw [decode, withBody]
  dsimp only
  rw [hfinish _ _ _ rfl]
  cases (receiveBody env cmd n inb).2 with
  | error e => rfl
  | ok data =>
    simp only [Except.bind, hparse]
    cases parse data <;> rfl

/-- A handler acts on the world as the operation it decoded, or not at all. -/
theorem handler_operates {cfg : Config} {env : RequestEnv} {cmd : Byte}
    {f : ℤ → Inbound → Outbound → World → Handled} (hf : handler cfg env cmd = some f)
    (hcmd : cmd ≠ STORAGE_PROTO_CMD_UPLOAD_FILE) (n : ℤ) (inb : Inbound) (out : Outbound)
    (w : World) : (f n inb out w).world = match decode cfg env cmd n inb with
      | .ok op => (operate cfg env w op).1
      | .error _ => w := by
  cases handles_of_handler hf with
  | uploadFile => exact absurd rfl hcmd
  | downloadFile =>
    refine operates_of_parse (groupFilename cfg (errnoOr env.errno EINVAL)) (.named _) rfl
      (fun _ => rfl) fun _ req r h => ?_
    simp only [h]
    cases r <;> rfl
  | getMetadata =>
    refine operates_of_parse (groupFilename cfg EINVAL) (.named _) rfl (fun _ => rfl)
      fun _ req r h => ?_
    simp only [h]
    cases r <;> rfl
  | deleteFile =>
    refine operates_of_parse (groupFilename cfg EINVAL) (.named _) rfl (fun _ => rfl)
      fun _ req r h => ?_
    simp only [h]
    cases r <;> rfl
  | syncDeleteFile =>
    refine operates_of_parse (groupFilename cfg EINVAL) (.named _) rfl (fun _ => rfl)
      fun _ req r h => ?_
    simp only [h]
    cases r <;> rfl
  | syncCreateFile =>
    refine operates_of_parse (parseSyncCopy cfg n) (.syncCopy _) rfl (fun _ => rfl)
      fun _ req r h => ?_
    simp only [h]
    cases r <;> rfl
  | syncUpdateFile =>
    refine operates_of_parse (parseSyncCopy cfg n) (.syncCopy _) rfl (fun _ => rfl)
      fun _ req r h => ?_
    simp only [h]
    cases r <;> rfl
  | setMetadata =>
    refine operates_of_parse (parseSetMetadata cfg n) .setMetadata rfl (fun _ => rfl)
      fun _ req r h => ?_
    simp only [h]
    cases r <;> rfl

end Handlers

section Requests

theorem opFlag_injective : Function.Injective opFlag := by
  intro a b h
  revert a b
  decide

/-- Different requests are different operations. -/
theorem operation_injective : Function.Injective SentRequest.operation := by
  have hname {limit : ℕ} {a b : Filename limit} (h : a.bytes = b.bytes) : a = b := by
    cases a
    cases b
    subst h
    rfl
  intro r r' h
  cases r <;> cases r' <;> simp only [SentRequest.operation, Operation.syncCopy.injEq,
    Operation.setMetadata.injEq, Operation.named.injEq, SyncCopyRequest.mk.injEq,
    SetMetadataRequest.mk.injEq, reduceCtorEq] at h
  · obtain ⟨rfl, hfilename, rfl⟩ := h
    rw [hname hfilename]
  · obtain ⟨hfilename, hflag, rfl⟩ := h
    rw [hname hfilename, opFlag_injective hflag]
  · obtain ⟨rfl, hfilename⟩ := h
    rw [hname hfilename]

/-- A package that arrives whole is what is received. -/
theorem receive_package {env : RequestEnv} {inb : Inbound} {data rest : Bytes}
    (hpending : inb.pending = data ++ rest) (hrecv : (tcprecvdata inb data.length).result = 1) :
    (receive env inb data.length).2 = .ok data := by
  have hok : (receive env inb data.length).2 = .ok (tcprecvdata inb data.length).data := by
    simp only [receive, hrecv, ne_eq, not_true_eq_false, if_false]
  obtain ⟨hsplit, hlen⟩ := receive_ok hok
  rw [hpending] at hsplit
  rw [hok, ← (List.append_inj hsplit (by rw [hlen, Int.toNat_natCast])).1]

/-- The length and the memory are what the handler of the request asks for. -/
theorem bodySize_package {cfg : Config} {env : RequestEnv} (hmalloc : env.mallocFails = false)
    (r : SentRequest) : bodySize env r.cmd (package cfg.groupName r).length =
      .ok (package cfg.groupName r).length := by
  cases r with
  | syncCopy protoCmd hcmd filename content =>
    have hupload := ne_upload_of_isSyncCopy hcmd
    have hpos := filename.pos
    rw [length_package_syncCopy]
    have hmin : ¬ ((34 + filename.bytes.length + content.length : ℕ) : ℤ) ≤ 34 := by omega
    simp only [bodySize, SentRequest.cmd, hupload, hcmd, allocatedSize, hmin, hmalloc,
      Bool.false_eq_true, if_true, if_false]
  | setMetadata filename merge metaBuff =>
    have hupload : STORAGE_PROTO_CMD_SET_METADATA ≠ STORAGE_PROTO_CMD_UPLOAD_FILE := by decide
    have hcopy : ¬ isSyncCopy STORAGE_PROTO_CMD_SET_METADATA := by decide
    have hpos := filename.pos
    rw [length_package_setMetadata]
    have hmin : ¬ ((35 + filename.bytes.length + metaBuff.length : ℕ) : ℤ) ≤ 35 := by omega
    simp only [bodySize, SentRequest.cmd, hupload, hcopy, allocatedSize, hmin, hmalloc,
      Bool.false_eq_true, if_true, if_false]
  | named protoCmd hcmd filename =>
    obtain ⟨hupload, hcopy, hset⟩ := hcmd.ne
    have hpos := filename.pos
    have hlt := filename.lt
    rw [length_package_named]
    have hmin : ¬ ((16 + filename.bytes.length : ℕ) : ℤ) ≤ FDFS_GROUP_NAME_MAX_LEN := by
      rw [FDFS_GROUP_NAME_MAX_LEN]
      omega
    have hmax : ¬ sizeofInBuff ≤ ((16 + filename.bytes.length : ℕ) : ℤ) := by
      rw [sizeofInBuff, FDFS_GROUP_NAME_MAX_LEN]
      omega
    simp only [bodySize, SentRequest.cmd, hupload, hcopy, hset, hmin, hmax, if_false]

theorem cmd_ne_upload (r : SentRequest) : r.cmd ≠ STORAGE_PROTO_CMD_UPLOAD_FILE := by
  cases r with
  | syncCopy protoCmd hcmd filename content => exact ne_upload_of_isSyncCopy hcmd
  | setMetadata filename merge metaBuff =>
    exact (by decide : STORAGE_PROTO_CMD_SET_METADATA ≠ STORAGE_PROTO_CMD_UPLOAD_FILE)
  | named protoCmd hcmd filename => exact hcmd.ne.1

theorem parseOperation_package {cfg : Config} {env : RequestEnv} (r : SentRequest)
    (hlen : ((package cfg.groupName r).length : ℤ) < INT_MAX) :
    parseOperation cfg env r.cmd (package cfg.groupName r).length (package cfg.groupName r) =
      .ok r.operation := by
  cases r with
  | syncCopy protoCmd hcmd filename content =>
    have hparse := @parseSyncCopy_package cfg protoCmd hcmd filename content _ rfl hlen
    simp only [parseOperation, SentRequest.cmd, hcmd, if_true, hparse]
    rfl
  | setMetadata filename merge metaBuff =>
    have hparse := @parseSetMetadata_package cfg filename merge metaBuff _ rfl hlen
    have hcopy : ¬ isSyncCopy STORAGE_PROTO_CMD_SET_METADATA := by decide
    simp only [parseOperation, SentRequest.cmd, hcopy, if_true, if_false, hparse]
    rfl
  | named protoCmd hcmd filename =>
    obtain ⟨-, hcopy, hset⟩ := hcmd.ne
    simp only [parseOperation, SentRequest.cmd, hcopy, hset, if_false, groupFilename_package]
    rfl

/-- A request that arrives decodes to its own operation, which no other request has, and that
operation is what its handler does to the world. -/
theorem requests_decode {cfg : Config} {env : RequestEnv} (r : SentRequest) {inb : Inbound}
    {rest : Bytes} (hmalloc : env.mallocFails = false)
    (hlen : ((package cfg.groupName r).length : ℤ) < INT_MAX)
    (hpending : inb.pending = package cfg.groupName r ++ rest)
    (hrecv : (tcprecvdata inb (package cfg.groupName r).length).result = 1) :
    decode cfg env r.cmd (package cfg.groupName r).length inb = .ok r.operation ∧
      (∀ r', r' ≠ r → r'.operation ≠ r.operation) ∧
      ∀ f, handler cfg env r.cmd = some f → ∀ out w,
        (f (package cfg.groupName r).length inb out w).world =
          (operate cfg env w r.operation).1 := by
  have hdecode : decode cfg env r.cmd (package cfg.groupName r).length inb = .ok r.operation := by
    rw [decode, receiveBody_eq, bodySize_package hmalloc]
    dsimp only
    rw [receive_package hpending hrecv]
    exact parseOperation_package r hlen
  refine ⟨hdecode, fun r' hne => operation_injective.ne hne, fun f hf out w => ?_⟩
  rw [handler_operates hf (cmd_ne_upload r), hdecode]

/-- A copy of an empty file under the longest name a copy may have. -/
def longestCopy : SentRequest :=
  .syncCopy STORAGE_PROTO_CMD_SYNC_CREATE_FILE (.inl rfl)
    ⟨List.replicate 127 97, by decide +kernel, by decide +kernel, by decide +kernel⟩ []

theorem longestCopy_decodes :
    decode sampleConfig {} longestCopy.cmd (package sampleConfig.groupName longestCopy).length
      ⟨package sampleConfig.groupName longestCopy, [.chunk 50]⟩ = .ok longestCopy.operation := by
  have hpending : package sampleConfig.groupName longestCopy =
      package sampleConfig.groupName longestCopy ++ [] := (List.append_nil _).symm
  have harrived := @requests_decode sampleConfig {} longestCopy
    ⟨package sampleConfig.groupName longestCopy, [.chunk 50]⟩ [] rfl (by decide +kernel) hpending
    (by decide +kernel)
  exact harrived.1

end Requests

end DemoStorage.RequestDecoding
