import DemoStorage.HandlerCalls

/-!
# Connections that are served at the same time

The names of the store have owners, one for each connection, and the clients of a connection
ask for the names of its owner. The calls of the service threads may interleave in any order,
also within a copy or a delete, until a request ends the process: each connection is a session of
the part of the store that its owner has, and is answered as if it were alone.
-/

namespace DemoStorage.ConcurrentSessions
open ByteStrings PosixFileTree SocketTransfers GeneratedNames DaemonState BinlogWriting
open BinlogOutcomes BinlogRotation FileEffects RequestHandlers ServiceThread TrackerProtocol
open ConnectionFraming ReplyAgreement RequestDecoding StoreLayout DelimitedStreams SessionFraming
open ContentStores StoreService StoreSessions HandlerCalls InterleavedCalls ConditionedRuns
open BinlogExclusion (printRecord)
open ConcurrentUploads (openFile writeStream)
open ReplicaRedelivery (cutPath_of_fits)

/-- A storage server at a state, and the owners of its names. -/
structure Service (ι : Type) where
  cfg : Config
  log : Loc
  base : Bytes
  start : World
  owner : Bytes → ι

variable {ι : Type} [DecidableEq ι]

namespace Service

abbrev Holds (S : Service ι) (w : World) (t : Files) : Prop :=
  Implements S.cfg S.log S.base S.start w t

abbrev Name (S : Service ι) (name : Bytes) : Prop := Placed S.cfg S.start S.log name

/-- What a state shows an owner. -/
def Shows (S : Service ι) (i : ι) (s : Files) (w : World) : Prop :=
  ∃ t, S.Holds w t ∧ t.part S.owner i = s

/-- With room for a record in every state that is met, the thread of an owner ends with `a`. -/
abbrev Ends {α : Type} (S : Service ι) (i : ι) (p : Thread World α) (s : Files) (a : α)
    (s' : Files) : Prop :=
  Yields (Room 144) S.Shows World.binlogFileSize i p s a s'

/-- The names a request is about have the owner. -/
def Owns (S : Service ι) (i : ι) : SentRequest → Prop
  | .syncCopy _ _ filename _ => S.owner filename.bytes = i
  | .setMetadata filename _ _ => S.owner filename.bytes = i
  | .named _ _ filename => S.owner filename.bytes = i ∧ S.owner (metaName filename.bytes) = i

/-- Every file can be sent. -/
def Sendable (S : Service ι) (s : Files) : Prop :=
  ∀ name c, S.Name name → s.files name = some c → (c.length : ℤ) ≤ INT_MAX

omit [DecidableEq ι] in
theorem Sendable.serve {S : Service ι} {s : Files} (h : S.Sendable s) (r : SentRequest)
    (hlen : ((package S.cfg.groupName r).length : ℤ) < INT_MAX) :
    S.Sendable (s.serve metaName (asked r)).1 := by
  intro name c hp hc
  rcases files_serve_origin hc with hc | hc
  · exact h name c hp hc
  · cases r with
    | syncCopy protoCmd hcmd filename content =>
      obtain rfl : content = c := by
        simp only [asked] at hc
        split_ifs at hc <;> exact Option.some.inj hc
      rw [length_package_syncCopy] at hlen
      omega
    | setMetadata filename merge metaBuff => cases hc
    | named protoCmd hcmd filename =>
      simp only [asked] at hc
      split_ifs at hc <;> cases hc

end Service

section Calls
variable {S : Service ι} {i : ι} {s : Files} {name : Bytes}

/-- A call does to every store that a state holds what it does to its owner's part. -/
theorem call_ends {α : Type} {f : World → World × α} {op : Files → Files} {a : α} (n : ℕ)
    (hop : Confined S.owner i op)
    (h : ∀ w t, Room 144 w → S.Holds w t →
      (∀ n, S.Name n → S.owner n = i → t.files n = s.files n) →
        S.Holds (f w).1 (op t) ∧ (f w).1.binlogFileSize = w.binlogFileSize + n ∧ (f w).2 = a) :
    S.Ends i (.atomic f) s a (op s) := by
  refine Yields.atomic n fun w hroom hshow => ?_
  obtain ⟨t, ht, rfl⟩ := hshow
  obtain ⟨ht', hsize, ha⟩ := h w t hroom ht fun n _ hn => (t.files_part hn).symm
  refine ⟨?_, ⟨op t, ht', hop.own t⟩, ha, hsize⟩
  rintro j hj _ ⟨u, hu, rfl⟩
  -- another store of the same state has the same files
  have hsame (n : Bytes) (hp : S.Name n) (hn : S.owner n = i) :
      u.files n = (t.part S.owner i).files n := by
    rw [t.files_part hn, ← hu.files n hp, ht.files n hp]
  exact ⟨op u, (h w u hroom hu hsame).1, hop.other u j hj⟩

/-- A call that adds nothing to the log. -/
theorem change_ends {α : Type} {f : World → World × α} {op : Files → Files} {a : α}
    (hop : Confined S.owner i op)
    (h : ∀ w t, Room 144 w → S.Holds w t →
      (∀ n, S.Name n → S.owner n = i → t.files n = s.files n) →
        S.Holds (f w).1 (op t) ∧ (f w).1.binlogFileSize = w.binlogFileSize ∧ (f w).2 = a) :
    S.Ends i (.atomic f) s a (op s) := by
  refine call_ends 0 hop fun w t hroom ht hsame => ?_
  obtain ⟨ht', hsize, ha⟩ := h w t hroom ht hsame
  exact ⟨ht', by rw [hsize, Nat.cast_zero, add_zero], ha⟩

/-- A call that the store does not know of. -/
theorem unseen_ends {α : Type} {f : World → World × α} {a : α}
    (h : ∀ w t, Room 144 w → S.Holds w t →
      (∀ n, S.Name n → S.owner n = i → t.files n = s.files n) →
        (f w).1.tree = w.tree ∧ (f w).1.cwd = w.cwd ∧ (f w).1.fpBinlog = w.fpBinlog ∧
          (f w).1.continueFlag = w.continueFlag ∧ (f w).1.binlogFileSize = w.binlogFileSize ∧
          (f w).2 = a) :
    S.Ends i (.atomic f) s a s := by
  refine change_ends Confined.id fun w t hroom ht hsame => ?_
  obtain ⟨htree, hcwd, hstream, hrun, hsize, ha⟩ := h w t hroom ht hsame
  exact ⟨ht.congr htree hcwd hstream hrun, hsize, ha⟩

theorem fileExists_ends (hp : S.Name name) (hi : S.owner name = i) :
    S.Ends i (fileExistsCalls (dataPath S.cfg name)) s (s.files name).isSome s := by
  refine unseen_ends fun w t _ ht hsame => ⟨rfl, rfl, rfl, rfl, rfl, ?_⟩
  change w.tree.access w.cwd (dataPath S.cfg name) = _
  rw [ht.access hp, hsame name hp hi]

theorem unlink_ends (hp : S.Name name) (hi : S.owner name = i) :
    S.Ends i (unlinkCalls none (dataPath S.cfg name)) s
      (if (s.files name).isSome = true then none else some ENOENT) (s.erase name) := by
  refine change_ends (Confined.erase hi) fun w t _ ht hsame => ?_
  obtain ⟨himp, hsize, -, hfail⟩ := ht.unlink hp
  rw [hsame name hp hi] at hfail
  exact ⟨himp, hsize, hfail⟩

/-- The file is there and empty, and then it has its content. -/
theorem writeToFile_ends (hp : S.Name name) (hi : S.owner name = i) {c : Bytes}
    (hc : (c.length : ℤ) ≤ INT_MAX) :
    S.Ends i (writeToFileCalls {} (dataPath S.cfg name) c) s 0 (s.put name c) := by
  have hopen : S.Ends i (.atomic (openToWrite {} (dataPath S.cfg name))) s
      (some (placeOf S.cfg S.start name)) (s.put name []) := by
    refine change_ends (Confined.put hi []) fun w t _ ht _ => ?_
    obtain ⟨hl, hh⟩ := ht.place hp
    have hopen := openFile_of_opens (f := {}) ⟨rfl, hl, hh⟩
    simp only [openToWrite, hopen]
    exact ⟨ht.put hp (by decide), rfl, trivial⟩
  have hwrite : S.Ends i (.atomic (writeOpened {} (placeOf S.cfg S.start name) c))
      (s.put name []) 0 (s.put name c) := by
    rw [← s.put_put name [] c]
    refine change_ends (Confined.put hi c) fun w t _ ht hsame => ?_
    have hempty : w.tree.content (placeOf S.cfg S.start name) = some [] := by
      rw [ht.files name hp, hsame name hp hi]
      exact Function.update_self _ _ _
    have hshort : ¬ Short {} c := not_short_of_quiet rfl rfl c
    have hreported : ¬ Reported {} c := fun h => hshort h.short
    simp only [writeOpened, hempty, Option.isSome_some, reached_of_not_short hshort,
      if_neg hreported, writeStream, if_true, Option.getD_some, List.drop_nil, List.append_nil]
    exact ⟨(ht.put hp hc).congr rfl rfl rfl rfl, trivial, trivial⟩
  exact hopen.bind hwrite

/-- The file is opened, sized and read, and stays what it is. -/
theorem getFileContent_ends (hp : S.Name name) (hi : S.owner name = i)
    (hlen : ∀ c, s.files name = some c → (c.length : ℤ) ≤ INT_MAX) :
    S.Ends i (getFileContentCalls {} (dataPath S.cfg name)) s
      ((message ((s.files name).elim .missing .content)).1, s.files name) s := by
  have hnode {w : World} {t : Files} (ht : S.Holds w t)
      (hsame : ∀ n, S.Name n → S.owner n = i → t.files n = s.files n) :
      w.tree.locate w.cwd (dataPath S.cfg name) = .ok (placeOf S.cfg S.start name) ∧
        w.tree.node (placeOf S.cfg S.start name) = (s.files name).map .file := by
    have hnode := ht.node_of_files hp
    rw [hsame name hp hi] at hnode
    exact ⟨(ht.place hp).1, hnode⟩
  cases hf : s.files name with
  | none =>
    have hopen : S.Ends i (.atomic (openToRead {} (dataPath S.cfg name))) s (.error ENOENT) s := by
      refine unseen_ends fun w t _ ht hsame => ⟨rfl, rfl, rfl, rfl, rfl, ?_⟩
      obtain ⟨hl, hn⟩ := hnode ht hsame
      rw [hf] at hn
      simp only [openToRead, openedFile_eq, hl, hn, Option.map_none]
      rfl
    have herrno : errnoOr ENOENT ENOENT = ENOENT := by decide
    refine hopen.bind ?_
    dsimp only
    rw [herrno]
    exact Yields.pure
  | some c =>
    have hopen : S.Ends i (.atomic (openToRead {} (dataPath S.cfg name))) s
        (.ok (placeOf S.cfg S.start name)) s := by
      refine unseen_ends fun w t _ ht hsame => ⟨rfl, rfl, rfl, rfl, rfl, ?_⟩
      obtain ⟨hl, hn⟩ := hnode ht hsame
      rw [hf] at hn
      simp only [openToRead, openedFile_eq, hl, hn, Option.map_some, Except.bind]
      exact hl
    have hcontent {w : World} {t : Files} (ht : S.Holds w t)
        (hsame : ∀ n, S.Name n → S.owner n = i → t.files n = s.files n) :
        w.tree.isDir (placeOf S.cfg S.start name) = false ∧
          openedContent (placeOf S.cfg S.start name) w = c := by
      obtain ⟨-, hn⟩ := hnode ht hsame
      rw [hf] at hn
      exact ⟨by simp [FileTree.isDir, hn], by simp [openedContent, FileTree.content, hn]⟩
    have hc := hlen c hf
    rw [INT_MAX] at hc
    have hsize : S.Ends i (.atomic (sizeOpened {} (placeOf S.cfg S.start name))) s
        (c.length : ℤ) s := by
      refine unseen_ends fun w t _ ht hsame => ⟨rfl, rfl, rfl, rfl, rfl, ?_⟩
      obtain ⟨hdir, hbytes⟩ := hcontent ht hsame
      simp only [sizeOpened, hdir, hbytes, Bool.false_eq_true, if_false]
      exact wrap32_eq (by omega) (by omega)
    have hread : S.Ends i (.atomic (readOpened (placeOf S.cfg S.start name) c.length)) s
        (some c) s := by
      refine unseen_ends fun w t _ ht hsame => ⟨rfl, rfl, rfl, rfl, rfl, ?_⟩
      obtain ⟨hdir, hbytes⟩ := hcontent ht hsame
      simp only [readOpened, hdir, hbytes, Bool.false_eq_true, false_and, if_false,
        Int.toNat_natCast, List.take_length]
    have hnonneg : ¬ (false = true ∨ (c.length : ℤ) < 0) := by simp
    refine hopen.bind (hsize.bind ?_)
    rw [if_neg hnonneg]
    refine hread.bind ?_
    dsimp only
    rw [if_neg (not_not.mpr rfl)]
    exact Yields.pure

/-- The record is one line of the log, and the log stays below its limit. -/
theorem storageBinlogWrite_ends (hp : S.Name name) (hi : S.owner name = i)
    (hname : name.length ≤ 129) {f : BinlogFaults} (hf : Quiet f) (op : Byte) :
    S.Ends i (storageBinlogWriteCalls S.cfg f op name) s (some 0) (s.logged op name) := by
  have hopen : S.Ends i (.atomic streamOpen) s true s := by
    refine unseen_ends fun w t _ ht _ => ?_
    simp [streamOpen, ht.stream]
  have hprint : S.Ends i (.atomic (printRecord · ⟨f, op, name⟩)) s (.ok ()) (s.logged op name) := by
    refine change_ends (Confined.logged hi op) fun w t _ ht _ => ?_
    have hlen := length_record_le_int f op hname
    simp only [printRecord, ht.stream, BinlogCall.text, BinlogCall.record, hf.fprintf, hf.fflush,
      not_lt.mpr hlen, Bool.true_eq_false, Bool.false_eq_true, or_self, if_false]
    exact ⟨ht.appended f op hp.layout.zero_notMem, rfl, trivial⟩
  have hadd : S.Ends i (.atomic (addSize (BinlogCall.text ⟨f, op, name⟩).length)) (s.logged op name)
      false (s.logged op name) := by
    refine call_ends (BinlogCall.text ⟨f, op, name⟩).length Confined.id fun w t hroom ht _ => ?_
    have hsize := nextSize_record f op hname hroom
    have hrec := length_record_le f op hname
    obtain ⟨-, hmax⟩ := hroom
    refine ⟨ht.congr rfl rfl rfl rfl, hsize, decide_eq_false (not_le.mpr ?_)⟩
    rw [BinlogCall.text, BinlogCall.record, hsize]
    omega
  have hrelease : S.Ends i (.atomic (releaseLog f (logRecord f op name) 0)) (s.logged op name)
      (some 0) (s.logged op name) := by
    refine unseen_ends fun w t _ _ _ => ?_
    simp [releaseLog, hf.unlock]
  have happend : S.Ends i (appendRecordCalls S.cfg ⟨f, op, name⟩) s (some 0)
      (s.logged op name) := by
    refine hprint.bind (hadd.bind ?_)
    rw [if_neg Bool.false_ne_true]
    exact Yields.pure
  refine hopen.bind ?_
  rw [hf.lock]
  exact happend.bind hrelease

end Calls

section Actions
variable {S : Service ι} {i : ι} {s : Files} {name : Bytes} {env : RequestEnv}

theorem copy_ends (henv : Calm env) (hp : S.Name name) (hi : S.owner name = i)
    (hfits : (dataPath S.cfg name).length < MAX_PATH_SIZE) (hname : name.length ≤ 129) {c : Bytes}
    (hc : (c.length : ℤ) ≤ INT_MAX) (protoCmd : Byte) :
    let x := s.serve metaName (if protoCmd = STORAGE_PROTO_CMD_SYNC_CREATE_FILE then
        .create STORAGE_OP_TYPE_REPLICA_CREATE_FILE name c
      else .update STORAGE_OP_TYPE_REPLICA_UPDATE_FILE name c)
    S.Ends i (syncCopyFileCalls S.cfg env protoCmd ⟨name, c⟩) s (some (message x.2).1) x.1 := by
  have hwrite := writeToFile_ends (s := s) hp hi hc
  have hlog := storageBinlogWrite_ends (s := s.put name c) hp hi hname henv.log (copyOp protoCmd)
  have htest : S.Ends i (copyTestCalls protoCmd (dataPath S.cfg name)) s
      (decide (protoCmd = STORAGE_PROTO_CMD_SYNC_CREATE_FILE ∧ (s.files name).isSome = true)) s := by
    unfold copyTestCalls
    split_ifs with hcreate
    · simpa [hcreate] using fileExists_ends hp hi
    · simpa [hcreate] using Yields.pure
  unfold syncCopyFileCalls
  dsimp only
  rw [cutPath_of_fits hfits]
  refine htest.bind ?_
  by_cases hexist : protoCmd = STORAGE_PROTO_CMD_SYNC_CREATE_FILE ∧ (s.files name).isSome = true
  · have hserve : s.serve metaName (.create STORAGE_OP_TYPE_REPLICA_CREATE_FILE name c) =
        (s, .existing) := if_pos hexist.2
    rw [if_pos (decide_eq_true hexist), if_pos hexist.1, hserve]
    exact Yields.pure
  · have hserve : s.serve metaName (if protoCmd = STORAGE_PROTO_CMD_SYNC_CREATE_FILE then
          .create STORAGE_OP_TYPE_REPLICA_CREATE_FILE name c
        else .update STORAGE_OP_TYPE_REPLICA_UPDATE_FILE name c) =
        ((s.put name c).logged (copyOp protoCmd) name, .done) := by
      unfold copyOp
      split_ifs with hcmd
      · exact if_neg fun hs => hexist ⟨hcmd, hs⟩
      · rfl
    rw [if_neg (by simpa using hexist), hserve, henv.write]
    refine hwrite.bind ?_
    rw [if_neg (not_not.mpr rfl)]
    exact hlog

theorem remove_ends (henv : Calm env) (hp : S.Name name) (hi : S.owner name = i)
    (hname : name.length ≤ 129) :
    let x := s.serve metaName (.remove STORAGE_OP_TYPE_REPLICA_DELETE_FILE name)
    S.Ends i (syncDeleteFileCalls S.cfg env name) s (some (message x.2).1) x.1 := by
  have hlog := storageBinlogWrite_ends (s := s.erase name) hp hi hname henv.log
    STORAGE_OP_TYPE_REPLICA_DELETE_FILE
  unfold syncDeleteFileCalls
  rw [henv.unlinkData]
  refine (unlink_ends hp hi).bind ?_
  split_ifs with hs
  · exact hlog
  · dsimp only
    rw [if_pos rfl]
    exact hlog

/-- A delete of two files, which the calls of the others may come between. -/
theorem delete_ends (henv : Calm env) (hp : S.Name name) (hm : S.Name (metaName name))
    (hi : S.owner name = i) (him : S.owner (metaName name) = i) (hname : name.length ≤ 127) :
    let x := s.serve metaName (.delete STORAGE_OP_TYPE_SOURCE_DELETE_FILE name)
    S.Ends i (deleteFileCalls S.cfg env name) s (some (message x.2).1) x.1 := by
  have hlen : (metaName name).length ≤ 129 := by
    rw [metaName, List.length_append]
    exact Nat.add_le_add hname (le_refl 2)
  unfold deleteFileCalls
  rw [henv.unlinkData, henv.unlinkMeta, henv.errno]
  refine (unlink_ends hp hi).bind ?_
  cases hf : s.files name with
  | none =>
    have hsame : s.erase name = s := by
      simp only [Store.erase, ← hf, Function.update_eq_self]
    have hserve : s.serve metaName (.delete STORAGE_OP_TYPE_SOURCE_DELETE_FILE name) =
        (s, .missing) := by
      simp [Store.serve, hf]
    have herrno : errnoOr ENOENT EACCES = ENOENT := by decide
    simp only [hserve, hsame, herrno, Option.isSome_none, Bool.false_eq_true, if_false,
      Option.isSome_some, if_true]
    exact Yields.pure
  | some b =>
    have hserve : s.serve metaName (.delete STORAGE_OP_TYPE_SOURCE_DELETE_FILE name) =
        ((((s.erase name).logged STORAGE_OP_TYPE_SOURCE_DELETE_FILE name).erase
          (metaName name)).logged STORAGE_OP_TYPE_SOURCE_DELETE_FILE (metaName name), .done) := by
      simp [Store.serve, hf]
    have hlog := storageBinlogWrite_ends (s := s.erase name) hp hi (by omega) henv.log
      STORAGE_OP_TYPE_SOURCE_DELETE_FILE
    have hunlink := unlink_ends
      (s := (s.erase name).logged STORAGE_OP_TYPE_SOURCE_DELETE_FILE name) hm him
    have hlog' := storageBinlogWrite_ends (s := ((s.erase name).logged
      STORAGE_OP_TYPE_SOURCE_DELETE_FILE name).erase (metaName name)) hm him hlen henv.metaLog
      STORAGE_OP_TYPE_SOURCE_DELETE_FILE
    rw [metaName, dataPath_meta] at hunlink
    simp only [hserve, Option.isSome_none, Option.isSome_some, Bool.false_eq_true, if_true, if_false]
    refine hlog.bind ?_
    simp only [ne_eq, not_true_eq_false, and_false, if_false]
    exact hunlink.bind hlog'

/-- Metadata for a file that is there end the process, and no file changes. -/
theorem mark_ends (hp : S.Name name) (hi : S.owner name = i) (opFlag : Byte) (metaBuff : Bytes) :
    S.Ends i (setMetadataCalls S.cfg ⟨name, opFlag, metaBuff⟩) s
      (if (s.files name).isSome = true then none else some ENOENT) s := by
  have hstub : S.Ends i (.atomic fun w => storageDoSetMetadata w
      (dataPath S.cfg name ++ STORAGE_META_FILE_EXT) metaBuff opFlag) s none s :=
    unseen_ends fun w t _ _ _ => ⟨rfl, rfl, rfl, rfl, rfl, rfl⟩
  unfold setMetadataCalls
  refine (fileExists_ends hp hi).bind ?_
  cases hf : s.files name with
  | none =>
    simp only [Option.isSome_none, Bool.false_eq_true, if_true, if_false]
    exact Yields.pure
  | some b =>
    simp only [Option.isSome_some, Bool.true_eq_false, if_true, if_false]
    exact hstub

/-- A file without metadata is answered with an empty status, and without a buffer. -/
theorem getMetadata_ends (henv : Calm env) (hp : S.Name name) (hm : S.Name (metaName name))
    (hi : S.owner name = i) (him : S.owner (metaName name) = i)
    (hlen : ∀ c, s.files (metaName name) = some c → (c.length : ℤ) ≤ INT_MAX) :
    let x := s.serve metaName (.readCompanion name)
    S.Ends i (getMetadataCalls S.cfg env name) s ((message x.2).1,
      if (s.files name).isSome = true then s.files (metaName name) else none) x.1 := by
  have hread := getFileContent_ends hm him hlen
  rw [metaName, dataPath_meta] at hread
  unfold getMetadataCalls
  rw [henv.read]
  refine (fileExists_ends hp hi).bind ?_
  cases hf : s.files name with
  | none =>
    simp only [Store.serve, hf, Option.isSome_none, Option.isNone_none, if_true]
    exact Yields.pure
  | some b =>
    simp only [Store.serve, hf, Option.isSome_some, Option.isNone_some, Bool.true_eq_false,
      Bool.false_eq_true, if_false, if_true]
    refine hread.bind ?_
    have henoent : (0 : Errno) ≠ ENOENT := by decide
    cases hf' : s.files (name ++ STORAGE_META_FILE_EXT) with
    | none =>
      simp only [metaName, hf', message, Option.elim_none, if_true]
      exact Yields.pure
    | some c =>
      simp only [metaName, hf', message, Option.elim_some, henoent, if_false]
      exact Yields.pure

end Actions

section Handlers
variable {S : Service ι} {i : ι} {s : Files} {env : RequestEnv} {before : Bytes}
  {as : List (Answer Bytes)} {out : Outbound}

/-- What a handler leaves of its connection behind an answer. -/
structure Answers (before : Bytes) (as : List (Answer Bytes)) (inb : Inbound) (a : Answer Bytes)
    (e : Exchange) : Prop where
  inbound : e.inbound = inb
  answered : Answered before e.outbound (as ++ [a])
  keeps : e.result = 0 ↔ a.keeps = true

theorem withBody_ends {recv : Inbound × Except Errno Bytes} (hheard : recv.1.Heard)
    {finish : Outbound → Except Errno Bytes → Thread World (Outbound × Errno)} {s' : Files}
    {r : Outbound × Errno} {a : Answer Bytes}
    (hans : Answered before r.1 (as ++ [a]) ∧ (r.2 = 0 ↔ a.keeps = true))
    (h : S.Ends i (finish out recv.2) s r s') :
    ∃ e, S.Ends i (withBodyCalls recv out finish) s e s' ∧ Answers before as recv.1 a e := by
  refine ⟨⟨recv.1, r.1, r.2⟩, ?_, rfl, hans.1, hans.2⟩
  unfold withBodyCalls
  rw [Outbound.awaiting_heard hheard]
  exact h.bind Yields.pure

/-- The calls of a handler that receives a package whose client is heard behind it. -/
theorem handler_ends (henv : Calm env) (r : SentRequest) (hr : Usable S.cfg S.start S.log r)
    (hi : S.Owns i r) (hlen : ((package S.cfg.groupName r).length : ℤ) < INT_MAX)
    (hs : S.Sendable s) (hans : Answered before out as) {inb : Inbound}
    (hrecv : (receiveBody env r.cmd (package S.cfg.groupName r).length inb).2 =
      .ok (package S.cfg.groupName r))
    (hheard : (receiveBody env r.cmd (package S.cfg.groupName r).length inb).1.Heard) :
    ∃ p, handlerCalls S.cfg env r.cmd = some p ∧ ∃ e,
      S.Ends i (p (package S.cfg.groupName r).length inb out) s e
        (s.serve metaName (asked r)).1 ∧
      Answers before as (receiveBody env r.cmd (package S.cfg.groupName r).length inb).1
        (s.serve metaName (asked r)).2 e := by
  cases r with
  | syncCopy protoCmd hcmd filename content =>
    refine ⟨storageSyncCopyFileCalls S.cfg env protoCmd, ?_, ?_⟩
    · obtain rfl | rfl := hcmd <;> rfl
    have hlt := filename.lt
    have hsize : (content.length : ℤ) ≤ INT_MAX := by
      rw [length_package_syncCopy] at hlen
      omega
    have hcopy := copy_ends (s := s) henv hr.1 hi hr.2 (by omega) hsize protoCmd
    have hparse := @parseSyncCopy_package S.cfg protoCmd hcmd filename content _ rfl hlen
    have hreq (n : ℤ) : receiveBody env protoCmd n inb = recvAllocated env 34 n n inb := by
      simp only [receiveBody, ne_upload_of_isSyncCopy hcmd, hcmd, if_true, if_false]
    simp only [SentRequest.cmd, hreq] at hrecv hheard ⊢
    have hanswered := hans.copied env rfl (copy_answers (s := s) filename.bytes content
      protoCmd)
    refine withBody_ends hheard (r := (_, _)) hanswered ?_
    rw [hrecv]
    simp only [Except.bind, hparse]
    exact hcopy.bind Yields.pure
  | setMetadata filename merge metaBuff =>
    refine ⟨storageSetMetadataCalls S.cfg env, rfl, ?_⟩
    have hmark := mark_ends (s := s) hr hi (opFlag merge) metaBuff
    have hparse := @parseSetMetadata_package S.cfg filename merge metaBuff _ rfl hlen
    have hsegv : SIGSEGV ≠ 0 := by decide
    change (recvAllocated env 35 _ _ inb).2 = _ at hrecv
    change (recvAllocated env 35 _ _ inb).1.Heard at hheard
    simp only [asked, Store.serve]
    cases hf : s.files filename.bytes with
    | none =>
      rw [hf] at hmark
      refine withBody_ends hheard (hans.status env (a := .missing) rfl (.inr rfl)) ?_
      rw [hrecv]
      simp only [Except.bind, hparse]
      exact hmark.bind Yields.pure
    | some b =>
      rw [hf] at hmark
      refine withBody_ends hheard (r := (out, SIGSEGV)) (a := .gone)
        ⟨hans.gone, iff_of_false hsegv (by simp [Answer.keeps])⟩ ?_
      rw [hrecv]
      simp only [Except.bind, hparse]
      exact hmark.bind Yields.pure
  | named protoCmd hcmd filename =>
    have hlt := filename.lt
    have hparse (mismatch : Errno) :=
      @groupFilename_package S.cfg protoCmd hcmd filename mismatch
    have hreq (n : ℤ) : receiveBody env protoCmd n inb = recvGroupRequest env n inb := by
      obtain ⟨hupload, hcopy, hset⟩ := hcmd.ne
      simp only [receiveBody, hupload, hcopy, hset, if_false]
    simp only [SentRequest.cmd, hreq] at hrecv hheard ⊢
    obtain ⟨hp, hm⟩ := hr
    obtain ⟨hi, him⟩ := hi
    obtain rfl | rfl | rfl | rfl := id hcmd
    · refine ⟨storageDeleteFileCalls S.cfg env, rfl, ?_⟩
      have hdelete := delete_ends (s := s) henv hp hm hi him (by omega)
      have hanswered := hans.status env rfl (delete_answers (s := s)
        STORAGE_OP_TYPE_SOURCE_DELETE_FILE filename.bytes)
      refine withBody_ends hheard hanswered ?_
      rw [hrecv]
      simp only [Except.bind, hparse]
      exact hdelete.bind Yields.pure
    · refine ⟨storageDownloadFileCalls S.cfg env, rfl, ?_⟩
      have hread := getFileContent_ends hp hi fun c hc => hs _ c hp hc
      have hanswered := hans.file env (read_buff s filename.bytes) fun c hc =>
        hs _ c hp hc
      refine withBody_ends hheard hanswered ?_
      rw [hrecv]
      simp only [Except.bind, hparse, henv.read]
      exact hread.bind Yields.pure
    · refine ⟨storageGetMetadataCalls S.cfg env, rfl, ?_⟩
      have hread := getMetadata_ends (s := s) henv hp hm hi him fun c hc => hs _ c hm hc
      have hanswered := hans.file env (companion_buff s filename.bytes) fun c hc =>
        hs _ c hm (companion_of_buff hc)
      refine withBody_ends hheard hanswered ?_
      rw [hrecv]
      simp only [Except.bind, hparse]
      exact hread.bind Yields.pure
    · refine ⟨storageSyncDeleteFileCalls S.cfg env, rfl, ?_⟩
      have hremove := remove_ends (s := s) henv hp hi (by omega)
      have hanswered := hans.status env (a := .done) rfl (.inl rfl)
      refine withBody_ends hheard hanswered ?_
      rw [hrecv]
      simp only [Except.bind, hparse]
      exact hremove.bind Yields.pure

end Handlers

/-- A stream without the pause at its front. -/
def resumed (inb : Inbound) : Inbound :=
  { inb with events := inb.events.dropWhile fun e => decide (e = .timeout) }

/-- The requests are at the front of the stream, which pauses in front of them only; behind each
of them the client's next bytes or the end of its stream are there in time. -/
def Punctual (cfg : Config) : List SentRequest → Inbound → Prop
  | [], _ => True
  | r :: rs, inb =>
    let header := tcprecvdata (resumed inb) sizeofHeader
    let body := tcprecvdata header.rest (package cfg.groupName r).length
    header.result ≠ 0 ∧ body.result ≠ 0 ∧ body.rest.Heard ∧ Punctual cfg rs body.rest

instance Punctual.decidable (cfg : Config) :
    (rs : List SentRequest) → (inb : Inbound) → Decidable (Punctual cfg rs inb)
  | [], _ => .isTrue trivial
  | r :: rs, inb =>
    have := decidable cfg rs (tcprecvdata (tcprecvdata (resumed inb) sizeofHeader).rest
      (package cfg.groupName r).length).rest
    inferInstanceAs (Decidable ((tcprecvdata (resumed inb) sizeofHeader).result ≠ 0 ∧
      (tcprecvdata (tcprecvdata (resumed inb) sizeofHeader).rest
        (package cfg.groupName r).length).result ≠ 0 ∧
      (tcprecvdata (tcprecvdata (resumed inb) sizeofHeader).rest
        (package cfg.groupName r).length).rest.Heard ∧
      Punctual cfg rs (tcprecvdata (tcprecvdata (resumed inb) sizeofHeader).rest
        (package cfg.groupName r).length).rest))

section Streams
variable {cfg : Config} {rs : List SentRequest} {inb : Inbound}

/-- A receive that times out before a request waits for its first byte. -/
theorem pause_of_punctual {r : SentRequest} (h : Punctual cfg (r :: rs) inb)
    (h0 : (tcprecvdata inb sizeofHeader).result = 0) : inb.events.head? = some .timeout := by
  obtain ⟨hheader, -⟩ := h
  obtain ⟨pending, evs⟩ := inb
  cases evs with
  | nil => exact absurd h0 hheader
  | cons e evs =>
    by_cases he : e = .timeout
    · rw [he]
      rfl
    · refine absurd h0 ?_
      simpa [resumed, he] using hheader

theorem Punctual.rest_of_pause (h : Punctual cfg rs inb) (hpause : inb.events.head? = some .timeout) :
    Punctual cfg rs (tcprecvdata inb sizeofHeader).rest := by
  cases rs with
  | nil => trivial
  | cons r rs =>
    obtain ⟨pending, evs⟩ := inb
    cases evs with
    | nil => cases hpause
    | cons e evs =>
      obtain rfl : e = .timeout := Option.some.inj hpause
      exact h

/-- A stream whose header arrives has no pause at its front. -/
theorem resumed_of_received (h : (tcprecvdata inb sizeofHeader).result = 1) : resumed inb = inb := by
  obtain ⟨pending, evs⟩ := inb
  cases evs with
  | nil => rfl
  | cons e evs =>
    have he : e ≠ .timeout := by
      rintro rfl
      cases h
    simp [resumed, he]

end Streams

section Loop
variable {S : Service ι} {i : ι} {s : Files} {before : Bytes} {as : List (Answer Bytes)}
  {out : Outbound} {envs : ℕ → ThreadEnv}

theorem serve_ends {env : ThreadEnv} (henv : CalmTurn env) (r : SentRequest)
    (hr : Usable S.cfg S.start S.log r) (hi : S.Owns i r)
    (hlen : ((package S.cfg.groupName r).length : ℤ) < INT_MAX) (hs : S.Sendable s)
    (hans : Answered before out as) {body : Inbound} {header : TrackerHeader}
    (hcmd : header.cmd = r.cmd) (hn : header.nInPackLen = (package S.cfg.groupName r).length)
    (hrecv : (receiveBody env.request r.cmd (package S.cfg.groupName r).length body).2 =
      .ok (package S.cfg.groupName r))
    (hheard : (receiveBody env.request r.cmd (package S.cfg.groupName r).length body).1.Heard) :
    let x := s.serve metaName (asked r)
    ∃ e, S.Ends i (serveCalls S.cfg env body header out) s
        (some e, if x.2.keeps = true then some (e.inbound, e.outbound) else none) x.1 ∧
      Answers before as
        (receiveBody env.request r.cmd (package S.cfg.groupName r).length body).1 x.2 e := by
  obtain ⟨p, hp, e, hends, hanswers⟩ := handler_ends henv.request r hr hi hlen hs hans hrecv hheard
  refine ⟨e, ?_, hanswers⟩
  have hcount (f : World → FDFSStorageStat) (t : Files) :
      S.Ends i (.atomic fun w => ({ w with stat := f w }, ())) t () t :=
    unseen_ends fun w _ _ _ _ => ⟨rfl, rfl, rfl, rfl, rfl, rfl⟩
  have hwrite (t : Files) : S.Ends i (.atomic (checkAndWriteToStatFile env.stat)) t true t := by
    rw [henv.stat]
    refine unseen_ends fun w _ _ _ _ => ?_
    obtain ⟨hok, htree, hcwd, hfp, hflag, hsize, -⟩ := checkAndWrite_calm w
    exact ⟨htree, hcwd, hfp, hflag, hsize, hok⟩
  unfold serveCalls
  rw [hcmd, hn, hp]
  refine (hcount _ s).bind (hends.bind ?_)
  by_cases hkeeps : (s.serve metaName (asked r)).2.keeps = true
  · rw [if_neg (not_not.mpr (hanswers.keeps.mpr hkeeps)), if_pos hkeeps]
    exact (hcount _ _).bind ((hwrite _).bind Yields.pure)
  · rw [if_pos (hanswers.keeps.not.mpr hkeeps), if_neg hkeeps]
    exact Yields.pure

/-- Whatever the other threads do between its calls, the loop serves a session of the part of
its owner. -/
theorem serviceLoop_ends {rs : List SentRequest} {fuel count : ℕ} {inb : Inbound}
    (hfuel : turns inb ≤ fuel) (hsmooth : Smooth inb.events)
    (hpending : inb.pending = rs.flatMap (sentBytes S.cfg)) (hpunctual : Punctual S.cfg rs inb)
    (hs : S.Sendable s) (hans : Answered before out as)
    (hrs : ∀ r ∈ rs, Usable S.cfg S.start S.log r ∧ S.Owns i r ∧
      ((package S.cfg.groupName r).length : ℤ) < INT_MAX)
    (henv : ∀ k, CalmTurn (envs k)) :
    let session := s.session metaName as (rs.map asked)
    ∃ es, S.Ends i (serviceLoopCalls S.cfg envs fuel count inb out) s es (s.behind session) ∧
      List.Forall₂ (fun e x => Answered before e.outbound x.2) es session := by
  induction fuel generalizing rs count inb out s as with
  | zero => simp [turns] at hfuel
  | succ fuel ih =>
    have hflag : S.Ends i (.atomic fun w => (w, w.continueFlag)) s true s :=
      unseen_ends fun w _ _ ht _ => ⟨rfl, rfl, rfl, rfl, rfl, ht.running⟩
    unfold serviceLoopCalls
    by_cases h0 : (tcprecvdata inb sizeofHeader).result = 0
    · -- a pause between two requests, or behind the last
      have hless := header_idle_turns h0
      have hsame : (tcprecvdata inb sizeofHeader).rest.pending = inb.pending ∧
          Punctual S.cfg rs (tcprecvdata inb sizeofHeader).rest := by
        cases rs with
        | nil =>
          have hall := tcprecvdata_pending inb sizeofHeader
          rw [hpending] at hall
          obtain ⟨-, hnil⟩ := List.append_eq_nil_iff.mp hall.symm
          exact ⟨hnil.trans hpending.symm, trivial⟩
        | cons r rs =>
          have hpause := pause_of_punctual hpunctual h0
          exact ⟨pause_keeps hpause, hpunctual.rest_of_pause hpause⟩
      obtain ⟨es, hends, hall⟩ := ih (by omega) (smooth_rest hsmooth _) (hsame.1.trans hpending)
        hsame.2 hs hans hrs
      refine ⟨es, hflag.bind ?_, hall⟩
      dsimp only
      rw [if_pos h0]
      exact hends
    · by_cases h1 : (tcprecvdata inb sizeofHeader).result = 1
      · cases rs with
        | nil =>
          obtain ⟨-, -, hlong⟩ := header_received h1
          simp [hpending] at hlong
        | cons r rs =>
          have hless := header_turns h1
          rw [List.flatMap_cons] at hpending
          obtain ⟨husable, howns, hlen⟩ := hrs r List.mem_cons_self
          have hmalloc := (henv count).request.malloc
          obtain ⟨-, hnow, hheard, hpunctual⟩ := hpunctual
          rw [resumed_of_received h1] at hnow hheard hpunctual
          obtain ⟨hcmd, hn, hbody⟩ := request_received hmalloc hsmooth hlen hpending h1
          obtain ⟨hrecv, hrest, hsmooth'⟩ := hbody hnow
          have hturns := receiveBody_turns_le (envs count).request r.cmd
            (package S.cfg.groupName r).length (tcprecvdata inb sizeofHeader).rest
          have hbehind : (receiveBody (envs count).request r.cmd (package S.cfg.groupName r).length
              (tcprecvdata inb sizeofHeader).rest).1 = (tcprecvdata
                (tcprecvdata inb sizeofHeader).rest (package S.cfg.groupName r).length).rest := by
            rw [receiveBody_eq, bodySize_package hmalloc]
            rfl
          rw [← hbehind] at hheard hpunctual
          obtain ⟨e, hserve, hanswers⟩ := serve_ends (henv count) r husable howns hlen hs hans hcmd
            hn hrecv hheard
          rw [← hanswers.inbound] at hpunctual
          rw [← hanswers.inbound] at hrest hsmooth' hturns
          simp only [List.map_cons, Store.session, Store.behind, List.foldl_cons]
          by_cases hkeeps : (s.serve metaName (asked r)).2.keeps = true
          · obtain ⟨es, hends, hall⟩ := @ih _ _ _ _ (count + 1) _ (by omega) hsmooth' hrest hpunctual
              (hs.serve r hlen) hanswers.answered
              fun r' hr' => hrs r' (List.mem_cons_of_mem _ hr')
            refine ⟨e :: es, hflag.bind ?_, ?_⟩
            · dsimp only
              rw [if_neg h0, if_neg (not_not.mpr h1)]
              refine hserve.bind ?_
              rw [if_pos hkeeps, if_pos hkeeps]
              exact hends.bind Yields.pure
            · rw [if_pos hkeeps]
              exact .cons hanswers.answered hall
          · refine ⟨[e], hflag.bind ?_, ?_⟩
            · dsimp only
              rw [if_neg h0, if_neg (not_not.mpr h1)]
              refine hserve.bind ?_
              rw [if_neg hkeeps, if_neg hkeeps]
              exact Yields.pure
            · rw [if_neg hkeeps]
              exact .cons hanswers.answered .nil
      · -- the end of the stream
        cases rs with
        | nil =>
          refine ⟨[], hflag.bind ?_, .nil⟩
          dsimp only
          rw [if_neg h0, if_pos h1]
          exact Yields.pure
        | cons r rs =>
          have hone : (tcprecvdata inb sizeofHeader).result = 1 := by
            refine received_of_smooth hsmooth h0 ?_
            have hlong := @length_sentBytes_ge S.cfg r
            rw [hpending, List.flatMap_cons, List.length_append]
            exact hlong.trans (Nat.le_add_right _ _)
          exact absurd hone h1

end Loop

/-- A client's requests, and what the thread that serves them finds. -/
structure Connection where
  requests : List SentRequest
  envs : ℕ → ThreadEnv
  inbound : Inbound
  outbound : Outbound

/-- A connection on which nothing fails, and whose requests are about names of its owner. -/
structure Separate (S : Service ι) (i : ι) (c : Connection) : Prop where
  usable : ∀ r ∈ c.requests, Usable S.cfg S.start S.log r ∧ S.Owns i r ∧
    ((package S.cfg.groupName r).length : ℤ) < INT_MAX
  turn : ∀ k, CalmTurn (c.envs k)
  accepting : Accepting c.outbound
  smooth : Smooth c.inbound.events
  pending : c.inbound.pending = c.requests.flatMap (sentBytes S.cfg)
  punctual : Punctual S.cfg c.requests c.inbound

section Connections
variable {S : Service ι} {c : ι → Connection}

def Connection.thread (S : Service ι) (c : Connection) : Thread World (List Exchange) :=
  storageThreadEntranceCalls S.cfg c.envs c.inbound c.outbound

/-- A thread for each connection. -/
def Service.pool (S : Service ι) (c : ι → Connection) : Pool ι World (List Exchange) :=
  ⟨S.start, fun i => (c i).thread S⟩

/-- A session of the store of the start. -/
def Service.session (S : Service ι) (c : Connection) : List (Files × List (Answer Bytes)) :=
  (storeOf S.cfg S.start).session metaName [] (c.requests.map asked)

omit [DecidableEq ι] in
theorem about_asked {i : ι} {r : SentRequest} (h : S.Owns i r) :
    ∀ name ∈ (asked r).about metaName, S.owner name = i := by
  intro name hname
  cases r with
  | syncCopy protoCmd hcmd filename content =>
    have hn : name = filename.bytes := by
      simp only [asked] at hname
      split_ifs at hname <;> simpa [Request.about] using hname
    rw [hn]
    exact h
  | setMetadata filename merge metaBuff =>
    have hn : name = filename.bytes := by simpa [asked, Request.about] using hname
    rw [hn]
    exact h
  | named protoCmd hcmd filename =>
    have hn : name = filename.bytes ∨ name = metaName filename.bytes := by
      simp only [asked] at hname
      split_ifs at hname
      · simpa [Request.about] using hname
      · exact .inl (by simpa [Request.about] using hname)
      · simpa [Request.about] using hname
      · exact .inl (by simpa [Request.about] using hname)
    rcases hn with rfl | rfl
    · exact h.1
    · exact h.2

/-- The thread of a connection serves a session of the store, whatever the other threads do
between its calls. -/
theorem Separate.ends {i : ι} {c : Connection} (h : Separate S i c)
    (hready : Ready S.cfg S.log S.base S.start) :
    ∃ es, S.Ends i (c.thread S) ((storeOf S.cfg S.start).part S.owner i) es
        (((storeOf S.cfg S.start).behind (S.session c)).part S.owner i) ∧
      List.Forall₂ (fun e x => Answered c.outbound.sent e.outbound x.2) es (S.session c) := by
  have hsend : S.Sendable ((storeOf S.cfg S.start).part S.owner i) := by
    intro name b hp hb
    simp only [Store.part] at hb
    split_ifs at hb
    exact hready.length name b hp hb
  have hans : Answered c.outbound.sent c.outbound [] := ⟨h.accepting, [], by simp, by simp, rfl⟩
  obtain ⟨es, hends, hall⟩ := serviceLoop_ends (le_refl _) h.smooth h.pending h.punctual hsend
    hans h.usable h.turn
  have habout : ∀ q ∈ c.requests.map asked, ∀ name ∈ q.about metaName, S.owner name = i := by
    intro q hq
    obtain ⟨r, hr, rfl⟩ := List.mem_map.mp hq
    exact about_asked (h.usable r hr).2.1
  rw [Store.session_part _ habout] at hends hall
  rw [Store.behind_part] at hends
  rw [List.forall₂_map_right_iff] at hall
  exact ⟨es, hends, hall⟩

theorem Service.shows_start (hready : Ready S.cfg S.log S.base S.start) (i : ι) :
    S.Shows i ((storeOf S.cfg S.start).part S.owner i) (S.pool c).state :=
  ⟨_, hready.implements, rfl⟩

/-- For any number of connections and every order of the calls that are made while the process is
there and its log has room: a thread that has ended has served what a session of its own serves,
its client has read the answers of that session, and the files of its names and the log of what
was done to them are what that session leaves. -/
theorem connections_interleave (hready : Ready S.cfg S.log S.base S.start)
    (h : ∀ i, Separate S i (c i)) {is : List ι}
    (hrun : Meets Pool.step (fun x _ => x.state.killed = false ∧ Room 144 x.state) (S.pool c) is)
    {i : ι} {es : List Exchange} (hi : ((run Pool.step (S.pool c) is).thread i).result = some es) :
    List.Forall₂ (fun e x =>
        (pieces packageSize (e.outbound.sent.drop (c i).outbound.sent.length)).map readReply =
          messages x.2) es (S.session (c i)) ∧
      S.Shows i (((storeOf S.cfg S.start).behind (S.session (c i))).part S.owner i)
        (run Pool.step (S.pool c) is).state := by
  choose es' hends hall using fun j => (h j).ends hready
  have hroom := hrun.imp fun _ _ hx => hx.2
  obtain ⟨rfl, hshows⟩ := Pool.yields_of_done (S.shows_start hready) hends hroom hi
  exact ⟨(hall i).imp fun _ _ hx => read_of_answered hx, hshows⟩

/-- A thread that has ended among others has left on its connection what the loop leaves when it
has the process for itself. -/
theorem connections_as_alone (hready : Ready S.cfg S.log S.base S.start)
    (h : ∀ i, Separate S i (c i)) {is : List ι}
    (hrun : Meets Pool.step (fun x _ => x.state.killed = false ∧ Room 144 x.state) (S.pool c) is)
    {i : ι} {es : List Exchange} (hi : ((run Pool.step (S.pool c) is).thread i).result = some es) :
    es = (handledBy (storageThreadEntrance S.cfg (c i).envs (c i).inbound (c i).outbound
      S.start)).map exchangeOf := by
  choose es' hends hall using fun j => (h j).ends hready
  have hroom := hrun.imp fun _ _ hx => hx.2
  obtain ⟨rfl, -⟩ := Pool.yields_of_done (S.shows_start hready) hends hroom hi
  have hshow := S.shows_start (c := c) hready i
  -- the log of a thread alone is no longer than it is among the others
  have halone : ((S.pool c).thread i).Along (Room 144) S.start := by
    cases is with
    | nil => exact Thread.along_of_result hi
    | cons k is =>
      obtain ⟨hleast, -⟩ := hroom.1
      refine Pool.along_of_done (fun j => ⟨_, _, _, S.shows_start hready j, hends j⟩) ?_ hroom hi
        (hends i) hshow hshow (le_refl _) (le_refl _)
      intro u v hv hsu huv
      exact ⟨hleast.trans hsu, lt_of_le_of_lt (by omega) hv.2⟩
  obtain ⟨hloop, -⟩ := (hends i).alone halone hshow
  rw [← hloop]
  exact serviceLoopCalls_alone _ _ _ _

end Connections

section Samples

/-- One file and its metadata belong to one connection, everything else to the other. -/
def twoOwners : Service Bool where
  cfg := sampleConfig
  log := sampleLogLoc
  base := []
  start := servingWorld
  owner name := decide (name = ascii "00/00/a" ∨ name = metaName (ascii "00/00/a"))

theorem isSyncCopy_create : isSyncCopy STORAGE_PROTO_CMD_SYNC_CREATE_FILE := .inl rfl

def otherCopy : List SentRequest :=
  [.syncCopy STORAGE_PROTO_CMD_SYNC_CREATE_FILE isSyncCopy_create ⟨ascii "00/00/b", by decide,
    by decide, by decide⟩ (ascii "y")]

def twoConnections : Bool → Connection
  | true => ⟨copyAndDownload, fun _ => calmTurn, copyAndDownloadStream, ⟨[], []⟩⟩
  | false => ⟨otherCopy, fun _ => calmTurn, ⟨otherCopy.flatMap (sentBytes sampleConfig), [.chunk 7]⟩,
    ⟨[], []⟩⟩

def turnByTurn : List Bool := (List.replicate 30 [true, false]).flatten

theorem twoConnections_separate (i : Bool) : Separate twoOwners i (twoConnections i) where
  usable := by
    have ha : Placed sampleConfig servingWorld sampleLogLoc (ascii "00/00/a") :=
      ⟨inLayout_sample, by decide +kernel, by decide +kernel, by decide +kernel⟩
    have hm : Placed sampleConfig servingWorld sampleLogLoc (metaName (ascii "00/00/a")) :=
      ⟨inLayout_sample.metaName, by decide +kernel, by decide +kernel, by decide +kernel⟩
    have hb : Placed sampleConfig servingWorld sampleLogLoc (ascii "00/00/b") :=
      ⟨⟨0, 0, ascii "b", by decide, by decide, by decide, by decide⟩, by decide +kernel,
        by decide +kernel, by decide +kernel⟩
    cases i with
    | true =>
      intro r hr
      obtain ⟨husable, hlen⟩ := usable_copyAndDownload ha hm r hr
      refine ⟨husable, ?_, hlen⟩
      obtain rfl | rfl : r = copyAndDownload[0] ∨ r = copyAndDownload[1] := by
        simpa [copyAndDownload, twoConnections] using hr
      · exact (by decide : twoOwners.owner (ascii "00/00/a") = true)
      · exact ⟨(by decide : twoOwners.owner (ascii "00/00/a") = true),
          (by decide : twoOwners.owner (metaName (ascii "00/00/a")) = true)⟩
    | false =>
      intro r hr
      obtain rfl : r = otherCopy[0] := by simpa [otherCopy, twoConnections] using hr
      exact ⟨⟨hb, by decide +kernel⟩, (by decide : twoOwners.owner (ascii "00/00/b") = false),
        by decide +kernel⟩
  turn k := by
    cases i <;>
      exact ⟨⟨rfl, rfl, rfl, rfl, rfl, rfl, ⟨rfl, rfl, rfl, rfl⟩, ⟨rfl, rfl, rfl, rfl⟩⟩, rfl⟩
  accepting e he := by cases i <;> cases he
  smooth := by
    cases i with
    | true => exact smooth_copyAndDownload
    | false =>
      intro e he
      simp [twoConnections] at he
      simp [he]
  pending := by cases i <;> rfl
  punctual := by cases i <;> decide +kernel

theorem turnByTurn_room :
    Meets Pool.step (fun x _ => x.state.killed = false ∧ Room 144 x.state)
      (twoOwners.pool twoConnections) turnByTurn := by
  decide +kernel

/-- What the copier has been sent behind a run in which the calls alternate. -/
def copierExchanges : List Exchange :=
  (((run Pool.step (twoOwners.pool twoConnections) turnByTurn).thread true).result).getD []

theorem copier_ends : ((run Pool.step (twoOwners.pool twoConnections) turnByTurn).thread true).result =
    some copierExchanges := by
  have hsome : ((run Pool.step (twoOwners.pool twoConnections) turnByTurn).thread true).result.isSome =
      true := by decide +kernel
  obtain ⟨es, hes⟩ := Option.isSome_iff_exists.mp hsome
  rw [copierExchanges, hes, Option.getD_some]

theorem connections_interleave_turnByTurn :
    List.Forall₂ (fun e x =>
        (pieces packageSize (e.outbound.sent.drop 0)).map readReply = messages x.2)
        copierExchanges (twoOwners.session (twoConnections true)) ∧
      twoOwners.Shows true (((storeOf sampleConfig servingWorld).behind
          (twoOwners.session (twoConnections true))).part twoOwners.owner true)
        (run Pool.step (twoOwners.pool twoConnections) turnByTurn).state :=
  connections_interleave (S := twoOwners) servingWorld_ready twoConnections_separate turnByTurn_room
    copier_ends

theorem connections_as_alone_turnByTurn :
    copierExchanges = (handledBy (storageThreadEntrance sampleConfig (fun _ => calmTurn)
      copyAndDownloadStream ⟨[], []⟩ servingWorld)).map exchangeOf :=
  connections_as_alone (S := twoOwners) servingWorld_ready twoConnections_separate turnByTurn_room
    copier_ends

end Samples
end DemoStorage.ConcurrentSessions
