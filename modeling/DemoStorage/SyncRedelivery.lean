import DemoStorage.KeyedEdits
import DemoStorage.ReplicaRedelivery
import DemoStorage.ReplyAgreement
import DemoStorage.StoreRequests
import DemoStorage.PathConfinement
import DemoStorage.StoreLayout

/-!
# Delivering a log of copies and deletes again

A replica creates a file unless there is one, updates it in any case, and deletes it if it is
there. On the data files these are the edits of a keyed store, so a replica that gets the
same requests twice ends with the files it had after the first time. A sender that waits for
each reply before it goes on is not answered: its requests are carried out, and the connection
is given up.
-/

namespace DemoStorage.SyncRedelivery
open ByteStrings LexicalPaths PosixFileTree SocketTransfers DaemonState BinlogWriting
open BinlogOutcomes FileEffects LogWrites RequestHandlers ServiceThread ConnectionFraming
open StoreRequests ReplicaRedelivery ReplyAgreement PathConfinement StoreLayout
open ConditionedRuns KeyedEdits

inductive SyncRequest where
  | create (req : SyncCopyRequest)
  | update (req : SyncCopyRequest)
  | delete (filename : Bytes)

namespace SyncRequest

def filename : SyncRequest → Bytes
  | create req => req.filename
  | update req => req.filename
  | delete filename => filename

def cmd : SyncRequest → Byte
  | create _ => STORAGE_PROTO_CMD_SYNC_CREATE_FILE
  | update _ => STORAGE_PROTO_CMD_SYNC_UPDATE_FILE
  | delete _ => STORAGE_PROTO_CMD_SYNC_DELETE_FILE

def request : SyncRequest → StoreRequest
  | create req => .syncCopy STORAGE_PROTO_CMD_SYNC_CREATE_FILE req
  | update req => .syncCopy STORAGE_PROTO_CMD_SYNC_UPDATE_FILE req
  | delete filename => .syncDelete filename

/-- What the request does to the data files, with the place of its name. -/
def edit (l : Loc) : SyncRequest → Edit Loc Bytes
  | create req => .create l req.content
  | update req => .put l req.content
  | delete _ => .remove l

end SyncRequest

def place (cfg : Config) (w : World) (x : SyncRequest) : Loc :=
  lexical w.cwd (dataPath cfg x.filename)

/-- The path fits its array, its directories are there, and it denotes a file of the store. -/
structure Named (cfg : Config) (w : World) (log : Loc) (x : SyncRequest) : Prop where
  fits : (dataPath cfg x.filename).length < MAX_PATH_SIZE
  locate : w.locate (dataPath cfg x.filename) = .ok (place cfg w x)
  holds : w.tree.holds (place cfg w x) = true
  offLog : place cfg w x ≠ log

/-- The call hands the request to its handler, and no file call and no reply fails. -/
structure Carries (cfg : Config) (x : SyncRequest) (c : Call) : Prop where
  cmd : c.cmd = x.cmd
  received : c.received cfg = .ok x.request
  write : c.env.write = {}
  unlink : c.env.unlinkData = none
  reply : Accepting c.outbound

/-- The binlog write of the call succeeds, if it makes one. A copy makes none for a file that
it was to create and that exists. -/
def LogSucceeds (cfg : Config) (w : World) (c : Call) : Prop :=
  match c.received cfg with
  | .ok (.syncCopy protoCmd req) =>
    ¬ (protoCmd = STORAGE_PROTO_CMD_SYNC_CREATE_FILE ∧
        w.tree.access w.cwd (dataPath cfg req.filename) = true) →
      (storageBinlogWrite cfg c.env.log w (copyOp protoCmd) req.filename).2 = some 0
  | .ok (.syncDelete filename) =>
    (storageBinlogWrite cfg c.env.log w STORAGE_OP_TYPE_REPLICA_DELETE_FILE filename).2 = some 0
  | _ => True

/-- Behind the body of the call the sender's next bytes, or the end of its stream, come before
the wait for them times out. -/
def SenderHeard (c : Call) : Prop := (receiveBody c.env c.cmd c.nInPackLen c.inbound).1.Heard

/-- The handler of the call returns 0. -/
def Acknowledged (cfg : Config) (w : World) (c : Call) : Prop :=
  ∃ f, handler cfg c.env c.cmd = some f ∧ (f c.nInPackLen c.inbound c.outbound w).result = 0

/-- A replica with the directories of an earlier state, and its files outside the log. -/
structure Replica (log : Loc) (w₀ w : World) (files : Loc → Option Bytes) : Prop where
  stream : w.fpBinlog = some ⟨log, true⟩
  cwd : w.cwd = w₀.cwd
  isDir : ∀ l, w.tree.isDir l = w₀.tree.isDir l
  files : ∀ l, l ≠ log → w.tree.content l = files l

section Results
variable {cfg : Config} {env : RequestEnv} {n : ℤ} {inb : Inbound} {out : Outbound} {w : World}

/-- A name of the layout is a file of the store once its path fits and its directories are
there: the log is never as far below the data directory. -/
theorem named_of_layout {x : SyncRequest} {l log : Loc} {index : ℤ} (h : InLayout x.filename)
    (hfits : (dataPath cfg x.filename).length < MAX_PATH_SIZE)
    (hl : w.locate (dataPath cfg x.filename) = .ok l) (hh : w.tree.holds l = true)
    (hlog : w.locate (binlogFilename cfg index) = .ok log) : Named cfg w log x := by
  have hplace : l = place cfg w x := FileTree.locate_lexical hl
  refine ⟨hfits, hplace ▸ hl, hplace ▸ hh, ?_⟩
  rw [← hplace]
  rintro rfl
  have hroom : 0 < room cfg := by
    obtain ⟨a, b, z, hname, -⟩ := h
    have hlen : (dataPath cfg x.filename).length =
        cfg.basePath.length + 6 + x.filename.length := by
      rw [dataPath, List.length_append, List.length_append]
      rfl
    have hpos : 0 < x.filename.length := by
      rw [hname]
      exact List.length_pos_of_ne_nil (List.cons_ne_nil _ _)
    unfold room
    omega
  obtain ⟨a, b, c, hdeep⟩ := h.place hl
  have hshort := @length_lexical_binlog cfg w.cwd hroom index
  rw [← FileTree.locate_lexical hlog, hdeep, List.length_append] at hshort
  have hthree : [a, b, c].length = 3 := rfl
  omega

private theorem ok_of_map {α β : Type} {f : α → β} (hf : Function.Injective f)
    {x : Except Errno Bytes} {p : Bytes → Except Errno α} {a : α}
    (h : x.bind (fun data => (p data).map f) = .ok (f a)) : x.bind p = .ok a := by
  cases x with
  | error e => cases h
  | ok data =>
    simp only [Except.bind] at h ⊢
    cases hp : p data with
    | error e =>
      rw [hp] at h
      cases h
    | ok b =>
      rw [hp] at h
      exact congrArg Except.ok (hf (Except.ok.inj h))

/-- A copy that was received returns its status, with `EEXIST` as success. -/
theorem syncCopy_result {protoCmd : Byte} {req : SyncCopyRequest} (hc : isSyncCopy protoCmd)
    (h : (receiveBody env protoCmd n inb).2.bind (parseRequest cfg env protoCmd n) =
      .ok (.syncCopy protoCmd req)) (hout : Accepting out)
    (hheard : (receiveBody env protoCmd n inb).1.Heard) {status : Errno}
    (hs : (syncCopyFile cfg env protoCmd w req).2 = some status) :
    (storageSyncCopyFile cfg env protoCmd n inb out w).result =
      if status = EEXIST then 0 else status := by
  have hu : protoCmd ≠ STORAGE_PROTO_CMD_UPLOAD_FILE := by
    rintro rfl
    exact absurd hc (by decide)
  have hparse : (recvAllocated env 34 n n inb).2.bind (parseSyncCopy cfg n) = .ok req := by
    apply ok_of_map (f := StoreRequest.syncCopy protoCmd)
    · intro a b hab
      exact (StoreRequest.syncCopy.inj hab).2
    · have hfun : parseRequest cfg env protoCmd n =
          fun data => (parseSyncCopy cfg n data).map (.syncCopy protoCmd) := by
        funext data
        simp only [parseRequest, hu, hc, if_true, if_false]
      rw [← hfun]
      simpa only [receiveBody, hu, hc, if_true, if_false] using h
  have hbody : (recvAllocated env 34 n n inb).1.Heard := by
    simpa only [receiveBody, hu, hc, if_true, if_false] using hheard
  obtain ⟨out', hsend, -, -⟩ := tcpsenddata_accepting hout (replyHeader env 0 status)
  simp only [storageSyncCopyFile, withBody, hparse, act, hs, replyWhenAlive_some,
    Outbound.awaiting_heard hbody, hsend, ne_eq, not_true_eq_false, if_false]

theorem syncDelete_result {filename : Bytes}
    (h : (receiveBody env STORAGE_PROTO_CMD_SYNC_DELETE_FILE n inb).2.bind
      (parseRequest cfg env STORAGE_PROTO_CMD_SYNC_DELETE_FILE n) = .ok (.syncDelete filename))
    (hout : Accepting out)
    (hheard : (receiveBody env STORAGE_PROTO_CMD_SYNC_DELETE_FILE n inb).1.Heard) {status : Errno}
    (hs : (syncDeleteFile cfg env w filename).2 = some status) :
    (storageSyncDeleteFile cfg env n inb out w).result = status := by
  have hparse : (recvGroupRequest env n inb).2.bind (groupFilename cfg EINVAL) = .ok filename :=
    ok_of_map (fun a b hab => StoreRequest.syncDelete.inj hab) h
  have hbody : (recvGroupRequest env n inb).1.Heard := hheard
  obtain ⟨out', hsend, -, -⟩ := tcpsenddata_accepting hout (replyHeader env 0 status)
  simp only [storageSyncDeleteFile, withBody, hparse, act, hs, replyWhenAlive_some, sendHeaderReply,
    Outbound.awaiting_heard hbody, hsend, ne_eq, not_true_eq_false, if_false]

end Results

section Steps
variable {cfg : Config} {log l : Loc} {w₀ w v : World} {m : Loc → Option Bytes} {c : Call}

/-- A log write that succeeds changes the log only. -/
theorem Replica.logged {f : BinlogFaults} {op : Byte} {filename : Bytes} (h : Replica log w₀ w m)
    (hok : (storageBinlogWrite cfg f w op filename).2 = some 0) :
    Replica log w₀ (storageBinlogWrite cfg f w op filename).1 m := by
  obtain ⟨hquiet, -, hlen, hsize⟩ := storageBinlogWrite_eq_zero.mp hok
  rw [storageBinlogWrite_quiet hquiet h.stream op filename hlen hsize]
  have hapart := apart_log w log (recordText (logRecord f op filename))
  constructor
  · exact h.stream
  · exact h.cwd
  · intro k
    exact (hapart.isDir k).trans (h.isDir k)
  · intro k hk
    exact (hapart.content hk).trans (h.files k hk)

theorem Replica.calls (h : Replica log w₀ w m) (cs : List Bytes) :
    Replica log w₀ { w with calls := cs } m := ⟨h.stream, h.cwd, h.isDir, h.files⟩

/-- A log write succeeds in every state with the same log. -/
theorem logSucceeds_congr {f : BinlogFaults} {op : Byte} {filename : Bytes}
    (hs : v.fpBinlog = w.fpBinlog) (hn : v.binlogFileSize = w.binlogFileSize) :
    (storageBinlogWrite cfg f v op filename).2 = some 0 ↔
      (storageBinlogWrite cfg f w op filename).2 = some 0 := by
  rw [storageBinlogWrite_eq_zero, storageBinlogWrite_eq_zero, Logs.congr hs hn]

theorem Replica.stored (h : Replica log w₀ w m) (p b : Bytes) (hh : w.tree.holds l = true) :
    Replica log w₀ (stored w p l b) (Function.update m l (some b)) := by
  constructor
  · exact h.stream
  · exact h.cwd
  · intro k
    exact (FileTree.isDir_setFile _ _ _ _).trans (h.isDir k)
  · intro k hk
    refine (FileTree.content_setFile hh b k).trans ?_
    by_cases hkl : k = l
    · simp [hkl]
    · simp [hkl, h.files k hk]

theorem Replica.removed (h : Replica log w₀ w m) (cs : List Bytes) (hh : w.tree.holds l = true) :
    Replica log w₀ { w with calls := cs, tree := w.tree.removeFile l }
      (Function.update m l none) := by
  constructor
  · exact h.stream
  · exact h.cwd
  · intro k
    exact (FileTree.isDir_removeFile _ _ _).trans (h.isDir k)
  · intro k hk
    by_cases hkl : k = l
    · subst hkl
      simp [FileTree.content, FileTree.node_removeFile hh]
    · simp only [Function.update_of_ne hkl]
      exact (FileTree.content_removeFile_of_ne _ hkl).trans (h.files k hk)

/-- A name leads to the same file in every state of the replica. -/
theorem Replica.named (h : Replica log w₀ w m) {x : SyncRequest} (hx : Named cfg w₀ log x) :
    w.locate (dataPath cfg x.filename) = .ok (place cfg w₀ x) ∧
      w.tree.holds (place cfg w₀ x) = true := by
  constructor
  · rw [World.locate, h.cwd]
    exact (FileTree.locate_ok_congr h.isDir _ _ _).mpr hx.locate
  · have := hx.holds
    simpa only [FileTree.holds, h.isDir] using this

/-- The existence test tells whether there is a file under the name. -/
theorem Replica.access_iff {filename : Bytes} (h : Replica log w₀ w m)
    (hl : w.locate (dataPath cfg filename) = .ok l) (hh : w.tree.holds l = true) (hne : l ≠ log) :
    w.tree.access w.cwd (dataPath cfg filename) = true ↔ (m l).isSome = true := by
  rw [← h.files l hne, FileTree.access_eq_true]
  have hnd := (FileTree.holds_iff.mp hh).2
  constructor
  · rintro ⟨k, hk, hsome⟩
    obtain rfl := Except.ok.inj (hl.symm.trans hk)
    cases hnode : w.tree.node l with
    | none => simp [hnode] at hsome
    | some x => cases x with
      | dir => exact absurd hnode hnd
      | file b => simp [FileTree.content, hnode]
  · intro hsome
    obtain ⟨b, hb⟩ := Option.isSome_iff_exists.mp hsome
    exact ⟨l, hl, by simp [FileTree.content_eq_some.mp hb]⟩

/-- A copy is the edit of its name, and ends with status 0 or `EEXIST`. -/
theorem Replica.copy {env : RequestEnv} {protoCmd : Byte} {req : SyncCopyRequest}
    (h : Replica log w₀ w m) (hfits : (dataPath cfg req.filename).length < MAX_PATH_SIZE)
    (hl : w.locate (dataPath cfg req.filename) = .ok l) (hh : w.tree.holds l = true) (hne : l ≠ log)
    (hw : env.write = {})
    (hlog : ¬ (protoCmd = STORAGE_PROTO_CMD_SYNC_CREATE_FILE ∧
        w.tree.access w.cwd (dataPath cfg req.filename) = true) →
      (storageBinlogWrite cfg env.log w (copyOp protoCmd) req.filename).2 = some 0) :
    let r := syncCopyFile cfg env protoCmd w req
    Replica log w₀ r.1 (if protoCmd = STORAGE_PROTO_CMD_SYNC_CREATE_FILE then
      (Edit.create l req.content).apply m else (Edit.put l req.content).apply m) ∧
      (r.2 = some 0 ∨ r.2 = some EEXIST) := by
  have hcontent := h.access_iff hl hh hne
  obtain ⟨cs, hstart⟩ := copyStart_eq protoCmd w (dataPath cfg req.filename)
  dsimp only
  rw [syncCopyFile_eq cfg env protoCmd w req (cutPath_of_fits hfits), hstart]
  by_cases hexist : protoCmd = STORAGE_PROTO_CMD_SYNC_CREATE_FILE ∧
      w.tree.access w.cwd (dataPath cfg req.filename) = true
  · rw [if_pos hexist, if_pos hexist.1]
    obtain ⟨b, hb⟩ := Option.isSome_iff_exists.mp (hcontent.mp hexist.2)
    have hvalue : (Edit.create l req.content).value (m l) = m l := by
      rw [hb]
      rfl
    have hsame : (Edit.create l req.content).apply m = m := by
      rw [Edit.apply, Edit.key, hvalue, Function.update_eq_self]
    rw [hsame]
    exact ⟨h.calls cs, .inr rfl⟩
  · rw [if_neg hexist]
    have hput : (if protoCmd = STORAGE_PROTO_CMD_SYNC_CREATE_FILE then
        (Edit.create l req.content).apply m else (Edit.put l req.content).apply m) =
        Function.update m l (some req.content) := by
      split_ifs with hc
      · have hnone : m l = none := by
          have := hcontent.not.mp fun hx => hexist ⟨hc, hx⟩
          simpa using this
        simp [Edit.apply, Edit.key, Edit.value, hnone]
      · rfl
    have hopens : Opens env.write { w with calls := cs } (dataPath cfg req.filename) l :=
      ⟨by rw [hw], hl, hh⟩
    have hshort : ¬ Short env.write req.content :=
      not_short_of_quiet (by rw [hw]) (by rw [hw]) req.content
    obtain ⟨r, hwrite, hr⟩ := writeToFile_of_opens hopens req.content
    rw [reached_of_not_short hshort] at hwrite
    have hr0 : r = 0 := hr.mpr fun hrep => hshort hrep.short
    set v := FileEffects.stored { w with calls := cs } (dataPath cfg req.filename) l req.content
    have hstored : Replica log w₀ v (Function.update m l (some req.content)) :=
      (h.calls cs).stored _ _ hh
    have hok : (storageBinlogWrite cfg env.log v (copyOp protoCmd) req.filename).2 = some 0 :=
      (logSucceeds_congr (v := v) (w := w) rfl rfl).mpr (hlog hexist)
    simp only [hwrite, hr0, ne_eq, not_true_eq_false, if_false, hput]
    exact ⟨hstored.logged hok, .inl hok⟩

theorem Replica.delete {env : RequestEnv} {filename : Bytes} (h : Replica log w₀ w m)
    (hl : w.locate (dataPath cfg filename) = .ok l) (hh : w.tree.holds l = true) (hne : l ≠ log)
    (hu : env.unlinkData = none)
    (hlog : (storageBinlogWrite cfg env.log w STORAGE_OP_TYPE_REPLICA_DELETE_FILE filename).2 =
      some 0) :
    let r := syncDeleteFile cfg env w filename
    Replica log w₀ r.1 ((Edit.remove l).apply m) ∧ r.2 = some 0 := by
  have happly : (Edit.remove l).apply m = Function.update m l none := rfl
  have hcongr (v : World) (hs : v.fpBinlog = w.fpBinlog) (hn : v.binlogFileSize = w.binlogFileSize) :
      (storageBinlogWrite cfg env.log v STORAGE_OP_TYPE_REPLICA_DELETE_FILE filename).2 = some 0 :=
    (logSucceeds_congr hs hn).mpr hlog
  dsimp only
  rw [happly]
  cases hc : w.tree.content l with
  | some b =>
    have hrem : Removable w (dataPath cfg filename) l := ⟨hl, by rw [hc]; rfl⟩
    have hrun : syncDeleteFile cfg env w filename = storageBinlogWrite cfg env.log
        { w.touch (dataPath cfg filename) with tree := w.tree.removeFile l }
        STORAGE_OP_TYPE_REPLICA_DELETE_FILE filename := by
      simp only [syncDeleteFile, hu, unlink_of_removable hrem]
    rw [hrun]
    have hok := hcongr { w.touch (dataPath cfg filename) with tree := w.tree.removeFile l } rfl rfl
    exact ⟨(h.removed _ hh).logged hok, hok⟩
  | none =>
    have hnode : w.tree.node l = none := by
      have hnd := (FileTree.holds_iff.mp hh).2
      cases hn : w.tree.node l with
      | none => rfl
      | some x => cases x with
        | dir => exact absurd hn hnd
        | file b => simp [FileTree.content, hn] at hc
    have hunlink : w.tree.unlink w.cwd (dataPath cfg filename) = .error ENOENT := by
      rw [World.locate] at hl
      simp [FileTree.unlink, hl, hnode]
    have hrun : syncDeleteFile cfg env w filename = storageBinlogWrite cfg env.log
        (w.touch (dataPath cfg filename)) STORAGE_OP_TYPE_REPLICA_DELETE_FILE filename := by
      simp only [syncDeleteFile, hu, unlink, hunlink, if_true]
    have hsame : Function.update m l none = m := by
      rw [← hc, h.files l hne]
      exact Function.update_eq_self l m
    rw [hrun, hsame]
    have hok := hcongr (w.touch (dataPath cfg filename)) rfl rfl
    exact ⟨(h.calls _).logged hok, hok⟩

/-- A call is the edit its request asks for, and is acknowledged to a sender that is heard from
again. -/
theorem Replica.serve {x : SyncRequest} (h : Replica log w₀ w m) (hx : Named cfg w₀ log x)
    (hc : Carries cfg x c) (hlog : LogSucceeds cfg w c) :
    Replica log w₀ (serveCall cfg w c) ((x.edit (place cfg w₀ x)).apply m) ∧
      (SenderHeard c → Acknowledged cfg w c) := by
  obtain ⟨hl, hh⟩ := h.named hx
  obtain ⟨hcmd, hrec, hw, hu, hreply⟩ := hc
  obtain ⟨env, cmd, n, inb, out⟩ := c
  rw [LogSucceeds, hrec] at hlog
  have hsave {s : Option Errno} (hs : s = some 0 ∨ s = some EEXIST) :
      ∃ status, s = some status ∧ (if status = EEXIST then 0 else status) = 0 := by
    rcases hs with rfl | rfl
    · exact ⟨0, rfl, by decide⟩
    · exact ⟨EEXIST, rfl, by decide⟩
  cases x with
  | create req =>
    obtain rfl : cmd = STORAGE_PROTO_CMD_SYNC_CREATE_FILE := hcmd
    have hstore : isStoreCmd STORAGE_PROTO_CMD_SYNC_CREATE_FILE := by decide
    obtain ⟨hrep, hs⟩ := h.copy hx.fits hl hh hx.offLog hw hlog
    rw [serveCall_eq hstore, hrec]
    refine ⟨hrep, fun hheard => ⟨_, rfl, ?_⟩⟩
    obtain ⟨status, hs, h0⟩ := hsave hs
    exact (syncCopy_result (.inl rfl) hrec hreply hheard hs).trans h0
  | update req =>
    obtain rfl : cmd = STORAGE_PROTO_CMD_SYNC_UPDATE_FILE := hcmd
    have hstore : isStoreCmd STORAGE_PROTO_CMD_SYNC_UPDATE_FILE := by decide
    obtain ⟨hrep, hs⟩ := h.copy hx.fits hl hh hx.offLog hw hlog
    rw [serveCall_eq hstore, hrec]
    refine ⟨hrep, fun hheard => ⟨_, rfl, ?_⟩⟩
    obtain ⟨status, hs, h0⟩ := hsave hs
    exact (syncCopy_result (.inr rfl) hrec hreply hheard hs).trans h0
  | delete filename =>
    obtain rfl : cmd = STORAGE_PROTO_CMD_SYNC_DELETE_FILE := hcmd
    have hstore : isStoreCmd STORAGE_PROTO_CMD_SYNC_DELETE_FILE := by decide
    obtain ⟨hrep, hs⟩ := h.delete hl hh hx.offLog hu hlog
    rw [serveCall_eq hstore, hrec]
    refine ⟨hrep, fun hheard => ⟨_, rfl, ?_⟩⟩
    exact syncDelete_result hrec hreply hheard hs

/-- To a sender that waits the handler sends nothing, and returns an error. -/
theorem not_acknowledged_of_unheard (h : ¬ SenderHeard c) : ¬ Acknowledged cfg w c := by
  rintro ⟨f, hf, hresult⟩
  exact (handler_unheard hf h c.outbound w).2 hresult

end Steps

section Runs
variable {cfg : Config} {log : Loc} {w₀ w : World} {m : Loc → Option Bytes}

/-- The edits of a list of requests. -/
def edits (cfg : Config) (w₀ : World) (xs : List SyncRequest) : List (Edit Loc Bytes) :=
  xs.map fun x => x.edit (place cfg w₀ x)

theorem Replica.run {xs : List SyncRequest} {cs : List Call} (h : Replica log w₀ w m)
    (hx : ∀ x ∈ xs, Named cfg w₀ log x) (hc : List.Forall₂ (Carries cfg) xs cs)
    (hm : Meets (serveCall cfg) (LogSucceeds cfg) w cs) :
    Replica log w₀ (run (serveCall cfg) w cs) (applyAll m (edits cfg w₀ xs)) ∧
      (Meets (serveCall cfg) (Acknowledged cfg) w cs ↔ ∀ c ∈ cs, SenderHeard c) := by
  induction hc generalizing w m with
  | nil => exact ⟨h, iff_of_true trivial (by simp)⟩
  | @cons x c xs cs hcarry hcs ih =>
    obtain ⟨hstep, hack⟩ := h.serve (hx x List.mem_cons_self) hcarry hm.1
    obtain ⟨hrun, hacks⟩ := ih hstep (fun y hy => hx y (List.mem_cons_of_mem _ hy)) hm.2
    have hfirst : Acknowledged cfg w c ↔ SenderHeard c :=
      ⟨fun ha => by_contra fun hn => not_acknowledged_of_unheard hn ha, hack⟩
    exact ⟨hrun, by rw [List.forall_mem_cons, ← hfirst, ← hacks, Meets]⟩

/-- Delivering a log of requests twice leaves the files it leaves the first time, and each
request of the second delivery is acknowledged exactly if the sender never waits for a reply. -/
theorem redelivery_harmless_iff {xs : List SyncRequest} {cs ds : List Call}
    (hlog : w.fpBinlog = some ⟨log, true⟩) (hx : ∀ x ∈ xs, Named cfg w log x)
    (hcs : List.Forall₂ (Carries cfg) xs cs) (hds : List.Forall₂ (Carries cfg) xs ds)
    (hm : Meets (serveCall cfg) (LogSucceeds cfg) w (cs ++ ds)) :
    (∀ l, l ≠ log → (run (serveCall cfg) w (cs ++ ds)).tree.content l =
        (run (serveCall cfg) w cs).tree.content l) ∧
      (Meets (serveCall cfg) (Acknowledged cfg) (run (serveCall cfg) w cs) ds ↔
        ∀ d ∈ ds, SenderHeard d) := by
  obtain ⟨hfirst, hsecond⟩ := (meets_append w cs ds).mp hm
  have h0 : Replica log w w w.tree.content := ⟨hlog, rfl, fun _ => rfl, fun _ _ => rfl⟩
  obtain ⟨h1, -⟩ := h0.run hx hcs hfirst
  obtain ⟨h2, hack⟩ := h1.run hx hds hsecond
  refine ⟨fun l hl => ?_, hack⟩
  rw [run_append, h2.files l hl, h1.files l hl, applyAll_twice]

/-- A call that carries a copy request for a file with five bytes, with the schedule of what
its sender does. -/
def sampleCall (schedule : List RecvEvent) : Call where
  env := {}
  cmd := STORAGE_PROTO_CMD_SYNC_CREATE_FILE
  nInPackLen := samplePackage.length
  inbound := ⟨samplePackage, schedule⟩

/-- The sender waits for the reply when the package has been received. -/
def waitingSchedule : List RecvEvent := [.chunk samplePackage.length, .timeout]

theorem sampleRequest_named :
    Named sampleConfig freshWorld sampleLogLoc (.create sampleRequest) := by
  constructor
  · decide
  · decide +kernel
  · decide +kernel
  · decide +kernel

/-- The file is created and logged, and the sender that waits gets no reply at all. -/
theorem waitingSender_not_acknowledged :
    let c := sampleCall waitingSchedule
    Carries sampleConfig (.create sampleRequest) c ∧
      Meets (serveCall sampleConfig) (LogSucceeds sampleConfig) freshWorld [c, c] ∧
      (storageSyncCopyFile sampleConfig {} c.cmd c.nInPackLen c.inbound c.outbound
        (run (serveCall sampleConfig) freshWorld [c])).outbound.sent = [] ∧
      ¬ Meets (serveCall sampleConfig) (Acknowledged sampleConfig)
        (run (serveCall sampleConfig) freshWorld [c]) [c] := by
  have hrec : (sampleCall waitingSchedule).received sampleConfig =
      .ok (.syncCopy STORAGE_PROTO_CMD_SYNC_CREATE_FILE sampleRequest) := by decide +kernel
  refine ⟨⟨rfl, hrec, rfl, rfl, fun e he => nomatch he⟩, ⟨?_, ?_, trivial⟩, by decide +kernel, ?_⟩
  · rw [LogSucceeds, hrec]
    intro
    decide +kernel
  · rw [LogSucceeds, hrec]
    intro hn
    exact absurd ⟨rfl, by decide +kernel⟩ hn
  · have hwait : ¬ SenderHeard (sampleCall waitingSchedule) := by
      unfold SenderHeard
      decide +kernel
    exact fun h => not_acknowledged_of_unheard hwait h.1

theorem sampleCall_redelivered :
    (∀ l, l ≠ sampleLogLoc →
        (run (serveCall sampleConfig) freshWorld ([sampleCall []] ++ [sampleCall []])).tree.content
          l = (run (serveCall sampleConfig) freshWorld [sampleCall []]).tree.content l) ∧
      (Meets (serveCall sampleConfig) (Acknowledged sampleConfig)
        (run (serveCall sampleConfig) freshWorld [sampleCall []]) [sampleCall []] ↔
          ∀ d ∈ [sampleCall []], SenderHeard d) := by
  have hrec : (sampleCall []).received sampleConfig =
      .ok (.syncCopy STORAGE_PROTO_CMD_SYNC_CREATE_FILE sampleRequest) := by decide +kernel
  have hcarries : Carries sampleConfig (.create sampleRequest) (sampleCall []) :=
    ⟨rfl, hrec, rfl, rfl, fun e he => nomatch he⟩
  have hfirst : LogSucceeds sampleConfig freshWorld (sampleCall []) := by
    rw [LogSucceeds, hrec]
    intro
    decide +kernel
  have hsecond : LogSucceeds sampleConfig (serveCall sampleConfig freshWorld (sampleCall []))
      (sampleCall []) := by
    rw [LogSucceeds, hrec]
    intro hn
    exact absurd ⟨rfl, by decide +kernel⟩ hn
  apply @redelivery_harmless_iff _ _ _ [.create sampleRequest]
  · decide +kernel
  · intro x hx
    obtain rfl := List.mem_singleton.mp hx
    exact sampleRequest_named
  · exact .cons hcarries .nil
  · exact .cons hcarries .nil
  · exact ⟨hfirst, hsecond, trivial⟩

end Runs

end DemoStorage.SyncRedelivery
