import DemoStorage.ContentStores
import DemoStorage.IniFiles
import DemoStorage.SyncRedelivery
import DemoStorage.SessionFraming

/-!
# The handlers serve a store of contents

Below the data directory the names of the layout are a store of contents, whose log is the
binlog. Where no call fails and the log has room, every request that arrives does to the files
and to the log what it asks of that store, and is answered with what the store answers. Metadata
for a file that is there end the process, which neither answers nor changes a file.
-/

namespace DemoStorage.StoreService
open ByteStrings LexicalPaths PosixFileTree SocketTransfers GeneratedNames DaemonState
open BinlogWriting BinlogOutcomes FileEffects RequestHandlers ServiceThread ConnectionFraming
open ReplyAgreement RequestDecoding StoreLayout ContentStores DelimitedStreams SessionFraming
open LogWrites (apart_log)
open IniFiles (length_decimal_le)
open ReplicaRedelivery (cutPath_of_fits)

abbrev Files := Store Bytes Bytes Byte

def metaName (name : Bytes) : Bytes := name ++ STORAGE_META_FILE_EXT

def placeOf (cfg : Config) (w : World) (name : Bytes) : Loc := lexical w.cwd (dataPath cfg name)

/-- A name of the layout whose directories are there and which denotes no directory. -/
structure Placed (cfg : Config) (w : World) (log : Loc) (name : Bytes) : Prop where
  layout : InLayout name
  locate : w.locate (dataPath cfg name) = .ok (placeOf cfg w name)
  holds : w.tree.holds (placeOf cfg w name) = true
  offLog : placeOf cfg w name ≠ log

/-- A state with the directories of an earlier one and with the files of a store, whose log is
what the binlog holds behind its text at the time; nothing else has changed. -/
structure Implements (cfg : Config) (log : Loc) (base : Bytes) (w₀ w : World) (s : Files) : Prop where
  stream : w.fpBinlog = some ⟨log, true⟩
  cwd : w.cwd = w₀.cwd
  isDir : ∀ l, w.tree.isDir l = w₀.tree.isDir l
  running : w.continueFlag = true
  files : ∀ name, Placed cfg w₀ log name → w.tree.content (placeOf cfg w₀ name) = s.files name
  length : ∀ name c, Placed cfg w₀ log name → s.files name = some c → (c.length : ℤ) ≤ INT_MAX
  logged : ∃ rs : List LogRecord, w.tree.content log = some (base ++ rs.flatMap recordText) ∧
    rs.map (fun r => (r.op, r.filename)) = s.log
  rest : ∀ l, l ≠ log → (∀ name, Placed cfg w₀ log name → l ≠ placeOf cfg w₀ name) →
    w.tree.content l = w₀.tree.content l

/-- The log stays below its limit for some more bytes. -/
def Room (n : ℤ) (w : World) : Prop :=
  0 ≤ w.binlogFileSize ∧ w.binlogFileSize + n < SYNC_BINLOG_FILE_MAX_SIZE

instance (n : ℤ) : DecidablePred (Room n) := fun w => inferInstanceAs
  (Decidable (0 ≤ w.binlogFileSize ∧ w.binlogFileSize + n < SYNC_BINLOG_FILE_MAX_SIZE))

section Effects
variable {cfg : Config} {log : Loc} {base : Bytes} {w₀ w v : World} {s : Files} {name : Bytes}

theorem Placed.unique {name' : Bytes} (h : Placed cfg w log name) (h' : Placed cfg w log name')
    (he : placeOf cfg w name = placeOf cfg w name') : name = name' :=
  layout_injective h.layout h'.layout h.locate (he ▸ h'.locate)

/-- A name leads to the same place in every later state. -/
theorem Implements.place (h : Implements cfg log base w₀ w s) (hp : Placed cfg w₀ log name) :
    w.locate (dataPath cfg name) = .ok (placeOf cfg w₀ name) ∧
      w.tree.holds (placeOf cfg w₀ name) = true := by
  constructor
  · rw [World.locate, h.cwd]
    exact (FileTree.locate_ok_congr h.isDir _ _ _).mpr hp.locate
  · have hholds := hp.holds
    simpa only [FileTree.holds, h.isDir] using hholds

/-- What the store does not know of may change. -/
theorem Implements.congr (h : Implements cfg log base w₀ w s) (ht : v.tree = w.tree)
    (hc : v.cwd = w.cwd) (hs : v.fpBinlog = w.fpBinlog) (hr : v.continueFlag = w.continueFlag) :
    Implements cfg log base w₀ v s where
  stream := hs.trans h.stream
  cwd := hc.trans h.cwd
  isDir l := by rw [ht, h.isDir]
  running := hr.trans h.running
  files name hp := by rw [ht, h.files name hp]
  length := h.length
  logged := by rw [ht]; exact h.logged
  rest := by rw [ht]; exact h.rest

/-- The bytes of a file as an existence test, a read and an unlink find them. -/
theorem Implements.node_of_files (h : Implements cfg log base w₀ w s)
    (hp : Placed cfg w₀ log name) :
    w.tree.node (placeOf cfg w₀ name) = (s.files name).map .file := by
  obtain ⟨-, hh⟩ := h.place hp
  rw [← h.files name hp, FileTree.content]
  have hnd := (FileTree.holds_iff.mp hh).2
  cases hn : w.tree.node (placeOf cfg w₀ name) with
  | none => rfl
  | some x => cases x with
    | dir => exact absurd hn hnd
    | file b => rfl

theorem Implements.access (h : Implements cfg log base w₀ w s) (hp : Placed cfg w₀ log name) :
    w.tree.access w.cwd (dataPath cfg name) = (s.files name).isSome := by
  obtain ⟨hl, -⟩ := h.place hp
  rw [World.locate] at hl
  rw [FileTree.access, hl]
  dsimp only
  rw [h.node_of_files hp, Option.isSome_map]

theorem Implements.put (h : Implements cfg log base w₀ w s) (hp : Placed cfg w₀ log name)
    {c : Bytes} (hc : (c.length : ℤ) ≤ INT_MAX) :
    Implements cfg log base w₀ (stored w (dataPath cfg name) (placeOf cfg w₀ name) c)
      (s.put name c) := by
  obtain ⟨-, hh⟩ := h.place hp
  constructor
  · exact h.stream
  · exact h.cwd
  · intro l
    exact (FileTree.isDir_setFile _ _ _ _).trans (h.isDir l)
  · exact h.running
  · intro name' hp'
    refine (FileTree.content_setFile hh c _).trans ?_
    by_cases he : name' = name
    · subst he
      simp [Store.put]
    · have hne : placeOf cfg w₀ name' ≠ placeOf cfg w₀ name := fun hpl => he (hp'.unique hp hpl)
      simp [Store.put, he, hne, h.files name' hp']
  · intro name' b hp' hb
    by_cases he : name' = name
    · subst he
      obtain rfl : c = b := by simpa [Store.put] using hb
      exact hc
    · refine h.length name' b hp' ?_
      simpa [Store.put, he] using hb
  · obtain ⟨rs, hrs, hlog⟩ := h.logged
    exact ⟨rs, (FileTree.content_setFile_of_ne _ c hp.offLog.symm).trans hrs, hlog⟩
  · intro l hl hplaces
    exact (FileTree.content_setFile_of_ne _ c (hplaces name hp)).trans (h.rest l hl hplaces)

theorem Implements.erase (h : Implements cfg log base w₀ w s) (hp : Placed cfg w₀ log name)
    (ht : v.tree = w.tree.removeFile (placeOf cfg w₀ name)) (hc : v.cwd = w.cwd)
    (hs : v.fpBinlog = w.fpBinlog) (hr : v.continueFlag = w.continueFlag) :
    Implements cfg log base w₀ v (s.erase name) := by
  obtain ⟨-, hh⟩ := h.place hp
  constructor
  · exact hs.trans h.stream
  · exact hc.trans h.cwd
  · intro l
    rw [ht]
    exact (FileTree.isDir_removeFile _ _ _).trans (h.isDir l)
  · exact hr.trans h.running
  · intro name' hp'
    rw [ht]
    by_cases he : name' = name
    · subst he
      simp [Store.erase, FileTree.content, FileTree.node_removeFile hh]
    · have hne : placeOf cfg w₀ name' ≠ placeOf cfg w₀ name := fun hpl => he (hp'.unique hp hpl)
      rw [FileTree.content_removeFile_of_ne _ hne, h.files name' hp']
      simp [Store.erase, he]
  · intro name' b hp' hb
    by_cases he : name' = name
    · subst he
      simp [Store.erase] at hb
    · refine h.length name' b hp' ?_
      simpa [Store.erase, he] using hb
  · obtain ⟨rs, hrs, hlog⟩ := h.logged
    refine ⟨rs, ?_, hlog⟩
    rw [ht, FileTree.content_removeFile_of_ne _ hp.offLog.symm]
    exact hrs
  · intro l hl hplaces
    rw [ht, FileTree.content_removeFile_of_ne _ (hplaces name hp)]
    exact h.rest l hl hplaces

/-- Erasing what is not there. -/
theorem Implements.erase_absent (h : Implements cfg log base w₀ w s) (hn : s.files name = none) :
    Implements cfg log base w₀ w (s.erase name) := by
  have hsame : s.erase name = s := by
    simp only [Store.erase, ← hn, Function.update_eq_self]
  rwa [hsame]

/-- A record of a name that fits the handlers' arrays takes 144 bytes at most. -/
theorem length_record_le (f : BinlogFaults) (op : Byte) (hn : name.length ≤ 129) :
    (recordText (logRecord f op name)).length ≤ 144 := by
  have htime := length_decimal_le (le_wrap32 f.time) (wrap32_lt f.time)
  have hname := length_cstr_le name
  rw [recordText, logRecord]
  simp only [List.length_append, List.length_cons, List.length_nil]
  omega

/-- A record behind the log. -/
theorem Implements.appended (h : Implements cfg log base w₀ w s) (f : BinlogFaults) (op : Byte)
    (h0 : 0 ∉ name) :
    Implements cfg log base w₀ (appended w log (recordText (logRecord f op name)))
      (s.logged op name) := by
  obtain ⟨rs, hrs, hlog⟩ := h.logged
  have hapart := apart_log w log (recordText (logRecord f op name))
  constructor
  · exact h.stream
  · exact h.cwd
  · intro l
    exact (hapart.isDir l).trans (h.isDir l)
  · exact h.running
  · intro name' hp
    exact (hapart.content hp.offLog).trans (h.files name' hp)
  · exact h.length
  · refine ⟨rs ++ [logRecord f op name], ?_, ?_⟩
    · have := FileTree.content_appendFile hrs (recordText (logRecord f op name)) log
      rw [if_pos rfl] at this
      rw [List.append_assoc] at this
      rw [List.flatMap_append, List.flatMap_singleton]
      exact this
    · simp [Store.logged, hlog, logRecord, cstr_eq_self h0]
  · exact fun l hl hplaces => (hapart.content hl).trans (h.rest l hl hplaces)

/-- The size of the log behind a record. -/
theorem nextSize_record (f : BinlogFaults) (op : Byte) (hn : name.length ≤ 129) (hroom : Room 144 w) :
    nextSize w (recordText (logRecord f op name)).length =
      w.binlogFileSize + (recordText (logRecord f op name)).length := by
  have hrec := length_record_le f op hn
  obtain ⟨hpos, hmax⟩ := hroom
  simp only [SYNC_BINLOG_FILE_MAX_SIZE] at hmax
  exact wrap32_eq (by omega) (by omega)

theorem length_record_le_int (f : BinlogFaults) (op : Byte) (hn : name.length ≤ 129) :
    ((recordText (logRecord f op name)).length : ℤ) ≤ INT_MAX := by
  have hrec := length_record_le f op hn
  rw [INT_MAX]
  omega

theorem Implements.logged_step (h : Implements cfg log base w₀ w s) {f : BinlogFaults}
    (hf : Quiet f) (op : Byte) (h0 : 0 ∉ name) (hn : name.length ≤ 129) {n : ℤ} (hn0 : 0 ≤ n)
    (hroom : Room (144 + n) w) : ∃ v, storageBinlogWrite cfg f w op name = (v, some 0) ∧
      Implements cfg log base w₀ v (s.logged op name) ∧ Room n v ∧ v.killed = w.killed := by
  have hrec := length_record_le f op hn
  obtain ⟨hpos, hmax⟩ := hroom
  have hsize := nextSize_record f op hn ⟨hpos, by omega⟩
  refine ⟨_, storageBinlogWrite_quiet hf h.stream op name (length_record_le_int f op hn) ?_,
    (h.appended f op h0).congr rfl rfl rfl rfl, ⟨?_, ?_⟩, rfl⟩
  · omega
  · change 0 ≤ nextSize w _
    omega
  · change nextSize w _ + n < SYNC_BINLOG_FILE_MAX_SIZE
    omega

end Effects

/-- No call of a request fails, and `errno` is what the log of messages leaves: its directory is
never there. -/
structure Calm (env : RequestEnv) : Prop where
  malloc : env.mallocFails = false
  errno : env.errno = ENOENT
  write : env.write = {}
  unlinkData : env.unlinkData = none
  unlinkMeta : env.unlinkMeta = none
  read : env.read = {}
  log : Quiet env.log
  metaLog : Quiet env.metaLog

/-- An answer as a reply carries it: a status and a body. A process that ends has a status only. -/
def message : Answer Bytes → Errno × Bytes
  | .done => (0, [])
  | .existing => (EEXIST, [])
  | .missing => (ENOENT, [])
  | .content c => (0, c)
  | .nothing => (0, [])
  | .gone => (SIGSEGV, [])

/-- The messages that are sent. -/
def messages (as : List (Answer Bytes)) : List (Errno × Bytes) :=
  (as.filter Answer.answered).map message

/-- What a sent request asks of the store. -/
def asked : SentRequest → Request Bytes Bytes Byte
  | .syncCopy protoCmd _ filename content =>
    if protoCmd = STORAGE_PROTO_CMD_SYNC_CREATE_FILE then
      .create STORAGE_OP_TYPE_REPLICA_CREATE_FILE filename.bytes content
    else .update STORAGE_OP_TYPE_REPLICA_UPDATE_FILE filename.bytes content
  | .setMetadata filename _ _ => .mark filename.bytes
  | .named protoCmd _ filename =>
    if protoCmd = STORAGE_PROTO_CMD_DELETE_FILE then
      .delete STORAGE_OP_TYPE_SOURCE_DELETE_FILE filename.bytes
    else if protoCmd = STORAGE_PROTO_CMD_SYNC_DELETE_FILE then
      .remove STORAGE_OP_TYPE_REPLICA_DELETE_FILE filename.bytes
    else if protoCmd = STORAGE_PROTO_CMD_GET_METADATA then .readCompanion filename.bytes
    else .read filename.bytes

/-- The name is usable and so is its companion; the path of a copy fits its array. -/
def Usable (cfg : Config) (w : World) (log : Loc) : SentRequest → Prop
  | .syncCopy _ _ filename _ =>
    Placed cfg w log filename.bytes ∧ (dataPath cfg filename.bytes).length < MAX_PATH_SIZE
  | .setMetadata filename _ _ => Placed cfg w log filename.bytes
  | .named _ _ filename =>
    Placed cfg w log filename.bytes ∧ Placed cfg w log (metaName filename.bytes)

/-- A state and a status behind an action, as the store has them. -/
structure Does (cfg : Config) (log : Loc) (base : Bytes) (w₀ : World) (n : ℤ)
    (x : Files × Answer Bytes) (w v : World) (status : Option Errno) : Prop where
  implements : Implements cfg log base w₀ v x.1
  room : Room n v
  killed : v.killed = w.killed
  status : status = some (message x.2).1

section Actions
variable {cfg : Config} {log : Loc} {base : Bytes} {w₀ w v : World} {s : Files} {env : RequestEnv}
  {name : Bytes} {n : ℤ}

theorem Room.mono {m : ℤ} (h : Room m w) (hn : n ≤ m) (hv : v.binlogFileSize = w.binlogFileSize) :
    Room n v := by
  rw [Room, hv]
  exact ⟨h.1, by have := h.2; omega⟩

theorem copy_does (h : Implements cfg log base w₀ w s) (henv : Calm env)
    (hp : Placed cfg w₀ log name) (hfits : (dataPath cfg name).length < MAX_PATH_SIZE)
    (hname : name.length ≤ 129) {c : Bytes} (hc : (c.length : ℤ) ≤ INT_MAX) (hn : 0 ≤ n)
    (hroom : Room (288 + n) w) (protoCmd : Byte) :
    Does cfg log base w₀ n (s.serve metaName
      (if protoCmd = STORAGE_PROTO_CMD_SYNC_CREATE_FILE then
        .create STORAGE_OP_TYPE_REPLICA_CREATE_FILE name c
      else .update STORAGE_OP_TYPE_REPLICA_UPDATE_FILE name c)) w
      (syncCopyFile cfg env protoCmd w ⟨name, c⟩).1 (syncCopyFile cfg env protoCmd w ⟨name, c⟩).2 := by
  obtain ⟨hl, hh⟩ := h.place hp
  obtain ⟨cs, hstart⟩ := copyStart_eq protoCmd w (dataPath cfg name)
  have hcalls : Implements cfg log base w₀ { w with calls := cs } s := h.congr rfl rfl rfl rfl
  rw [syncCopyFile_eq cfg env protoCmd w ⟨name, c⟩ (cutPath_of_fits hfits), hstart, h.access hp]
  by_cases hexist : protoCmd = STORAGE_PROTO_CMD_SYNC_CREATE_FILE ∧ (s.files name).isSome = true
  · rw [if_pos hexist, if_pos hexist.1]
    have hserve : s.serve metaName (.create STORAGE_OP_TYPE_REPLICA_CREATE_FILE name c) =
        (s, .existing) := if_pos hexist.2
    rw [hserve]
    exact ⟨hcalls, hroom.mono (by omega) rfl, rfl, rfl⟩
  · rw [if_neg hexist]
    have hserve : s.serve metaName (if protoCmd = STORAGE_PROTO_CMD_SYNC_CREATE_FILE then
          .create STORAGE_OP_TYPE_REPLICA_CREATE_FILE name c
        else .update STORAGE_OP_TYPE_REPLICA_UPDATE_FILE name c) =
        ((s.put name c).logged (copyOp protoCmd) name, .done) := by
      unfold copyOp
      split_ifs with hcmd
      · exact if_neg fun hs => hexist ⟨hcmd, hs⟩
      · rfl
    have hopens : Opens env.write { w with calls := cs } (dataPath cfg name) (placeOf cfg w₀ name) :=
      ⟨by rw [henv.write], hl, hh⟩
    have hshort : ¬ Short env.write c :=
      not_short_of_quiet (by rw [henv.write]) (by rw [henv.write]) c
    have hwrite := writeToFile_eq_stored hopens c
    rw [reached_of_not_short hshort, if_neg fun hr : Reported _ _ => hshort hr.short] at hwrite
    obtain ⟨v, hlog, himp, hv, hkilled⟩ := (hcalls.put hp hc).logged_step henv.log (copyOp protoCmd)
      hp.layout.zero_notMem hname hn (hroom.mono (by omega) rfl)
    simp only [hserve, hwrite, ne_eq, not_true_eq_false, if_false]
    rw [hlog]
    exact ⟨himp, hv, hkilled, rfl⟩

/-- An unlink that no outside failure stops. -/
theorem Implements.unlink (h : Implements cfg log base w₀ w s) (hp : Placed cfg w₀ log name) :
    Implements cfg log base w₀ (unlink none w (dataPath cfg name)).1 (s.erase name) ∧
      (unlink none w (dataPath cfg name)).1.binlogFileSize = w.binlogFileSize ∧
      (unlink none w (dataPath cfg name)).1.killed = w.killed ∧
      (unlink none w (dataPath cfg name)).2 =
        if (s.files name).isSome = true then none else some ENOENT := by
  obtain ⟨hl, hh⟩ := h.place hp
  cases hf : s.files name with
  | some b =>
    have hc : w.tree.content (placeOf cfg w₀ name) = some b := (h.files name hp).trans hf
    rw [unlink_of_removable ⟨hl, by rw [hc]; rfl⟩]
    exact ⟨h.erase hp rfl rfl rfl rfl, rfl, rfl, rfl⟩
  | none =>
    have hnode := h.node_of_files hp
    rw [hf] at hnode
    have hunlink : w.tree.unlink w.cwd (dataPath cfg name) = .error ENOENT := by
      rw [World.locate] at hl
      simp [FileTree.unlink, hl, hnode]
    have hrun : DaemonState.unlink none w (dataPath cfg name) =
        (w.touch (dataPath cfg name), some ENOENT) := by
      simp only [DaemonState.unlink, hunlink]
    have htouch : Implements cfg log base w₀ (w.touch (dataPath cfg name)) s :=
      h.congr rfl rfl rfl rfl
    rw [hrun]
    exact ⟨htouch.erase_absent hf, rfl, rfl, rfl⟩

theorem remove_does (h : Implements cfg log base w₀ w s) (henv : Calm env)
    (hp : Placed cfg w₀ log name) (hname : name.length ≤ 129) (hn : 0 ≤ n)
    (hroom : Room (288 + n) w) :
    Does cfg log base w₀ n (s.serve metaName (.remove STORAGE_OP_TYPE_REPLICA_DELETE_FILE name)) w
      (syncDeleteFile cfg env w name).1 (syncDeleteFile cfg env w name).2 := by
  obtain ⟨himp, hsize, hkept, hfail⟩ := h.unlink hp
  obtain ⟨v, hlog, himp, hv, hkilled⟩ := himp.logged_step henv.log STORAGE_OP_TYPE_REPLICA_DELETE_FILE
    hp.layout.zero_notMem hname hn (hroom.mono (by omega) hsize)
  have hrun : syncDeleteFile cfg env w name = (v, some 0) := by
    rw [← hlog]
    simp only [syncDeleteFile, henv.unlinkData, hfail]
    split_ifs <;> rfl
  rw [hrun]
  exact ⟨himp, hv, hkilled.trans hkept, rfl⟩

theorem delete_does (h : Implements cfg log base w₀ w s) (henv : Calm env)
    (hp : Placed cfg w₀ log name) (hm : Placed cfg w₀ log (metaName name))
    (hname : name.length ≤ 127) (hn : 0 ≤ n) (hroom : Room (288 + n) w) :
    Does cfg log base w₀ n (s.serve metaName (.delete STORAGE_OP_TYPE_SOURCE_DELETE_FILE name)) w
      (deleteFile cfg env w name).1 (deleteFile cfg env w name).2 := by
  have hlen : (metaName name).length ≤ 129 := by
    rw [metaName, List.length_append]
    exact Nat.add_le_add hname (le_refl 2)
  obtain ⟨himp, hsize, hkept, hfail⟩ := h.unlink hp
  have hfails : (unlink none w (dataPath cfg name)).2.isSome = (s.files name).isNone := by
    rw [hfail]
    cases s.files name <;> rfl
  cases hf : s.files name with
  | none =>
    have hsame : s.erase name = s := by
      simp only [Store.erase, ← hf, Function.update_eq_self]
    rw [hsame] at himp
    have hrun : deleteFile cfg env w name =
        ((unlink none w (dataPath cfg name)).1, some ENOENT) := by
      have herrno : errnoOr ENOENT EACCES = ENOENT := by decide
      simp only [deleteFile, henv.unlinkData, hfails, hf, Option.isNone_none, if_true, henv.errno,
        herrno]
    have hserve : s.serve metaName (.delete STORAGE_OP_TYPE_SOURCE_DELETE_FILE name) =
        (s, .missing) := by
      simp [Store.serve, hf]
    rw [hrun, hserve]
    exact ⟨himp, hroom.mono (by omega) hsize, hkept, rfl⟩
  | some b =>
    have hfirst : Room (144 + (144 + n)) (unlink none w (dataPath cfg name)).1 :=
      hroom.mono (by omega) hsize
    obtain ⟨u, hlog, himp, hu, hkept'⟩ := himp.logged_step henv.log STORAGE_OP_TYPE_SOURCE_DELETE_FILE
      hp.layout.zero_notMem (by omega) (by omega) hfirst
    obtain ⟨himp, hsize, hkept'', -⟩ := himp.unlink hm
    obtain ⟨v, hlog', himp, hv, hkilled⟩ := himp.logged_step henv.metaLog
      STORAGE_OP_TYPE_SOURCE_DELETE_FILE hm.layout.zero_notMem hlen hn (hu.mono (le_refl _) hsize)
    have hserve : s.serve metaName (.delete STORAGE_OP_TYPE_SOURCE_DELETE_FILE name) =
        ((((s.erase name).logged STORAGE_OP_TYPE_SOURCE_DELETE_FILE name).erase
          (metaName name)).logged STORAGE_OP_TYPE_SOURCE_DELETE_FILE (metaName name), .done) := by
      simp [Store.serve, hf]
    have hrun : deleteFile cfg env w name = (v, some 0) := by
      rw [metaName, dataPath_meta] at hlog'
      simp only [deleteFile, henv.unlinkData, hfails, hf, hlog, henv.unlinkMeta, henv.errno,
        Option.isNone_some, Bool.false_eq_true, ne_eq, not_true_eq_false, and_false, if_false]
      exact hlog'
    rw [hrun, hserve]
    exact ⟨himp, hv, ((hkilled.trans hkept'').trans hkept').trans hkept, rfl⟩

/-- Metadata for a file that is there end the process, and change no file. -/
theorem mark_leaves (h : Implements cfg log base w₀ w s) (hp : Placed cfg w₀ log name)
    (opFlag : Byte) (metaBuff : Bytes) : setMetadata cfg env w ⟨name, opFlag, metaBuff⟩ =
      if (s.files name).isSome = true then
        ({ w.touch (dataPath cfg name) with killed := true }, none)
      else (w.touch (dataPath cfg name), some ENOENT) := by
  rw [setMetadata_eq, h.access hp]

/-- A read that no outside failure stops. -/
theorem Implements.read (h : Implements cfg log base w₀ w s) (hp : Placed cfg w₀ log name) :
    getFileContent {} w (dataPath cfg name) = (w.touch (dataPath cfg name),
      (message ((s.files name).elim .missing .content)).1, s.files name) := by
  obtain ⟨hl, -⟩ := h.place hp
  rw [World.locate] at hl
  have hnode := h.node_of_files hp
  cases hf : s.files name with
  | none =>
    rw [hf] at hnode
    have hopen : openedFile {} w (dataPath cfg name) = .error ENOENT := by
      simp only [openedFile_eq, hl, hnode, Option.map_none]
    have herrno : errnoOr ENOENT ENOENT = ENOENT := by decide
    simp only [getFileContent, hopen, herrno]
    rfl
  | some b =>
    rw [hf] at hnode
    have hlen := h.length name b hp hf
    rw [INT_MAX] at hlen
    have hsize : wrap32 b.length = b.length := wrap32_eq (by omega) (by omega)
    have hopen : openedFile {} w (dataPath cfg name) = .ok (b.length, some b) := by
      simp only [openedFile_eq, hl, hnode, Option.map_some, hsize]
    have hnonneg : ¬ (b.length : ℤ) < 0 := by omega
    have htake : b.take (b.length : ℤ).toNat = b := by
      rw [Int.toNat_natCast, List.take_length]
    simp only [getFileContent, hopen, hnonneg, or_false, Bool.false_eq_true, if_false, htake]
    rfl

/-- A file without metadata is answered with an empty status, and without a buffer. -/
theorem companion_read (h : Implements cfg log base w₀ w s) (henv : Calm env)
    (hp : Placed cfg w₀ log name) (hm : Placed cfg w₀ log (metaName name)) :
    ∃ v, getMetadata cfg env w name = (v, (message (s.serve metaName (.readCompanion name)).2).1,
        if (s.files name).isSome = true then s.files (metaName name) else none) ∧
      Implements cfg log base w₀ v s ∧ v.binlogFileSize = w.binlogFileSize ∧
      v.killed = w.killed := by
  have htouch : Implements cfg log base w₀ (w.touch (dataPath cfg name)) s :=
    h.congr rfl rfl rfl rfl
  have hexist : fileExists w (dataPath cfg name) =
      (w.touch (dataPath cfg name), (s.files name).isSome) := by
    rw [fileExists, h.access hp]
  cases hf : s.files name with
  | none =>
    refine ⟨w.touch (dataPath cfg name), ?_, htouch, rfl, rfl⟩
    simp [getMetadata, hexist, hf, Store.serve, message]
  | some b =>
    have hread := htouch.read hm
    have hpath : dataPath cfg (metaName name) = dataPath cfg name ++ STORAGE_META_FILE_EXT :=
      dataPath_meta cfg name
    rw [hpath] at hread
    refine ⟨(w.touch (dataPath cfg name)).touch (dataPath cfg name ++ STORAGE_META_FILE_EXT), ?_,
      htouch.congr rfl rfl rfl rfl, rfl, rfl⟩
    have henoent : (0 : Errno) ≠ ENOENT := by decide
    cases hf' : s.files (metaName name) with
    | none =>
      rw [hf'] at hread
      simp [getMetadata, hexist, hf, henv.read, hread, Store.serve, hf', message]
    | some c =>
      rw [hf'] at hread
      simp [getMetadata, hexist, hf, henv.read, hread, Store.serve, hf', message, henoent]

end Actions

/-- A reply as its reader takes it apart. -/
def readReply (package : Bytes) : Errno × Bytes :=
  ((decodeHeader package).status, package.drop 11)

/-- Behind what had been sent before there are the replies of some answers, one by one. -/
structure Answered (before : Bytes) (out : Outbound) (as : List (Answer Bytes)) : Prop where
  accepting : Accepting out
  replies : ∃ ps : List Bytes, out.sent = before ++ ps.flatten ∧
    (∀ p ∈ ps, Delimits packageSize p) ∧ ps.map readReply = messages as

section Replies

theorem delimits_reply (env : RequestEnv) (status : Errno) {body : Bytes}
    (h : (body.length : ℤ) ≤ INT_MAX) :
    Delimits packageSize (replyHeader env body.length status ++ body) := by
  rw [replyHeader, List.append_assoc]
  exact delimits_filled env.stack _ status rfl h

theorem readReply_reply (env : RequestEnv) (n : ℤ) (status : Errno) (body : Bytes) :
    readReply (replyHeader env n status ++ body) = (status, body) := by
  have hfield := length_fillField TRACKER_PROTO_PKG_LEN_SIZE (hexadecimal n ++ [0]) env.stack
  have hdrop : (replyHeader env n status ++ body).drop 10 = status :: body := by
    rw [replyHeader, List.append_assoc, List.drop_append, List.drop_of_length_le (by
      rw [hfield]; decide), hfield]
    rfl
  have hbody : (replyHeader env n status ++ body).drop 11 = body :=
    List.drop_left' (length_replyHeader env n status)
  rw [readReply, decodeHeader, hdrop, hbody]
  rfl

theorem Answered.sent {before : Bytes} {out out' : Outbound} {as : List (Answer Bytes)}
    (h : Answered before out as) (hacc : Accepting out') (env : RequestEnv) {a : Answer Bytes}
    {status : Errno} {body : Bytes} (hanswered : a.answered = true)
    (ha : message a = (status, body)) (hbody : (body.length : ℤ) ≤ INT_MAX)
    (hsent : out'.sent = out.sent ++ (replyHeader env body.length status ++ body)) :
    Answered before out' (as ++ [a]) := by
  obtain ⟨ps, hps, hdel, hread⟩ := h.replies
  refine ⟨hacc, ps ++ [replyHeader env body.length status ++ body], ?_, ?_, ?_⟩
  · rw [hsent, hps, List.flatten_append, List.flatten_singleton, List.append_assoc]
  · intro p hp
    rcases List.mem_append.mp hp with hp | hp
    · exact hdel p hp
    · rw [List.mem_singleton.mp hp]
      exact delimits_reply env status hbody
  · have hlast : [a].filter Answer.answered = [a] := by simp [hanswered]
    rw [List.map_append, hread, List.map_singleton, readReply_reply, messages, messages,
      List.filter_append, List.map_append, hlast, List.map_singleton, ha]

/-- A process that ends sends nothing. -/
theorem Answered.gone {before : Bytes} {out : Outbound} {as : List (Answer Bytes)}
    (h : Answered before out as) : Answered before out (as ++ [.gone]) := by
  obtain ⟨ps, hps, hdel, hread⟩ := h.replies
  have hlast : [Answer.gone (γ := Bytes)].filter Answer.answered = [] := rfl
  refine ⟨h.accepting, ps, hps, hdel, ?_⟩
  rw [hread, messages, messages, List.filter_append, hlast, List.append_nil]

/-- A header without a body is an answer without a content. -/
theorem Answered.header {before : Bytes} {out : Outbound} {as : List (Answer Bytes)}
    (h : Answered before out as) (env : RequestEnv) {a : Answer Bytes} {status : Errno}
    (hanswered : a.answered = true) (ha : message a = (status, [])) :
    ∃ out', tcpsenddata out (some (replyHeader env 0 status)) = (1, out') ∧
      Answered before out' (as ++ [a]) := by
  obtain ⟨out', hsend, hsent, hacc⟩ := tcpsenddata_accepting h.accepting (replyHeader env 0 status)
  refine ⟨out', hsend, h.sent hacc env hanswered ha (by decide) ?_⟩
  simpa using hsent

/-- A file is sent behind its header; a missing buffer is not sent, and the call fails. -/
theorem Answered.file {before : Bytes} {out : Outbound} {as : List (Answer Bytes)}
    (h : Answered before out as) (env : RequestEnv) {a : Answer Bytes} {buff : Option Bytes}
    (hbuff : buff = none ∧ (a = .missing ∨ a = .nothing) ∨ ∃ c, buff = some c ∧ a = .content c)
    (hlen : ∀ c, buff = some c → (c.length : ℤ) ≤ INT_MAX) :
    Answered before (sendFileReply env out (message a).1 buff).1 (as ++ [a]) ∧
      ((sendFileReply env out (message a).1 buff).2 = 0 ↔ a.keeps = true) := by
  have hne : errnoOr env.sendErrno EPIPE ≠ 0 := errnoOr_ne_zero (by decide)
  have henoent : ENOENT ≠ 0 := by decide
  obtain ⟨rfl, rfl | rfl⟩ | ⟨c, rfl, rfl⟩ := hbuff
  · obtain ⟨out', hsend, hans⟩ := h.header env (a := .missing) rfl rfl
    have hrun : sendFileReply env out (message .missing).1 none = (out', ENOENT) := by
      simp [sendFileReply, message, hsend, henoent]
    rw [hrun]
    exact ⟨hans, by simp [Answer.keeps, henoent]⟩
  · obtain ⟨out', hsend, hans⟩ := h.header env (a := .nothing) rfl rfl
    have hrun : sendFileReply env out (message .nothing).1 none =
        (out', errnoOr env.sendErrno EPIPE) := by
      have hnull : tcpsenddata out' none = (-1, out') := rfl
      simp [sendFileReply, message, hsend, hnull]
    rw [hrun]
    exact ⟨hans, by simp [Answer.keeps, hne]⟩
  · obtain ⟨out1, hsend1, hsent1, hacc1⟩ := tcpsenddata_accepting h.accepting
      (replyHeader env c.length 0)
    obtain ⟨out2, hsend2, hsent2, hacc2⟩ := tcpsenddata_accepting hacc1 c
    have hrun : sendFileReply env out (message (.content c)).1 (some c) = (out2, 0) := by
      simp [sendFileReply, message, hsend1, hsend2]
    rw [hrun]
    refine ⟨h.sent hacc2 env rfl rfl (hlen c rfl) ?_, by simp [Answer.keeps]⟩
    rw [hsent2, hsent1, List.append_assoc]

end Replies

/-- What a handler leaves behind, as the store serves the request. -/
structure Serves (cfg : Config) (log : Loc) (base : Bytes) (w₀ : World) (n : ℤ)
    (x : Files × Answer Bytes) (before : Bytes) (as : List (Answer Bytes)) (w : World)
    (g : Handled) : Prop where
  implements : Implements cfg log base w₀ g.world x.1
  room : Room n g.world
  killed : g.world.killed = true ↔ w.killed = true ∨ x.2 = .gone
  answered : Answered before g.outbound (as ++ [x.2])
  keeps : g.result = 0 ↔ x.2.keeps = true

section Handlers
variable {cfg : Config} {log : Loc} {base before : Bytes} {w₀ w : World} {s : Files}
  {env : RequestEnv} {n : ℤ} {as : List (Answer Bytes)} {out : Outbound}

/-- An answer that is a status, as a handler returns it. -/
theorem Answered.status {status : Errno} {a : Answer Bytes} (hans : Answered before out as)
    (env : RequestEnv)
    (hstatus : status = (message a).1) (ha : a = .done ∨ a = .missing) :
    Answered before (sendHeaderReply env out status).1 (as ++ [a]) ∧
      ((sendHeaderReply env out status).2 = 0 ↔ a.keeps = true) := by
  have hmessage : message a = (status, []) := by
    rw [hstatus]
    rcases ha with rfl | rfl <;> rfl
  have hanswered : a.answered = true := by rcases ha with rfl | rfl <;> rfl
  obtain ⟨out', hsend, hans⟩ := hans.header env hanswered hmessage
  have hrun : sendHeaderReply env out status = (out', status) := by
    simp [sendHeaderReply, hsend]
  have hkeeps : (message a).1 = 0 ↔ a.keeps = true := by
    rcases ha with rfl | rfl <;> decide
  rw [hrun, hstatus]
  exact ⟨hans, hkeeps⟩

/-- The answer to a copy: an existing file keeps the connection. -/
theorem Answered.copied {status : Errno} {a : Answer Bytes} (hans : Answered before out as)
    (env : RequestEnv)
    (hstatus : status = (message a).1) (ha : a = .done ∨ a = .existing) :
    let t := tcpsenddata out (some (replyHeader env 0 status))
    Answered before t.2 (as ++ [a]) ∧ ((if t.1 ≠ 1 then errnoOr env.sendErrno EPIPE
      else if status = EEXIST then 0 else status) = 0 ↔ a.keeps = true) := by
  have hmessage : message a = (status, []) := by
    rw [hstatus]
    rcases ha with rfl | rfl <;> rfl
  have hanswered : a.answered = true := by rcases ha with rfl | rfl <;> rfl
  obtain ⟨out', hsend, hans⟩ := hans.header env hanswered hmessage
  have hkeeps : (if (message a).1 = EEXIST then 0 else (message a).1) = 0 ↔ a.keeps = true := by
    rcases ha with rfl | rfl <;> decide
  intro t
  have ht : t = (1, out') := hsend
  rw [ht, hstatus]
  exact ⟨hans, by simpa using hkeeps⟩

/-- An action that is answered does not end the process. -/
theorem Does.lives {x : Files × Answer Bytes} {v : World} {status : Option Errno}
    (hd : Does cfg log base w₀ n x w v status) (hx : x.2 ≠ .gone) :
    v.killed = true ↔ w.killed = true ∨ x.2 = .gone := by
  rw [hd.killed]
  exact ⟨.inl, fun h => h.resolve_right hx⟩

theorem Does.header {x : Files × Answer Bytes} {v : World} {status : Option Errno} {inb : Inbound}
    (hd : Does cfg log base w₀ n x w v status) (hx : x.2 = .done ∨ x.2 = .missing)
    (hans : Answered before out as) : Serves cfg log base w₀ n x before as w
      ⟨inb, (replyWhenAlive out status (sendHeaderReply env out)).1, v,
        (replyWhenAlive out status (sendHeaderReply env out)).2⟩ := by
  have hstatus := hans.status env rfl hx
  have hne : x.2 ≠ .gone := by
    intro h
    simp [h] at hx
  have hlives := hd.lives hne
  rw [hd.status]
  exact ⟨hd.implements, hd.room, hlives, hstatus.1, hstatus.2⟩

theorem Does.copied {x : Files × Answer Bytes} {v : World} {status : Option Errno} {inb : Inbound}
    (hd : Does cfg log base w₀ n x w v status) (hx : x.2 = .done ∨ x.2 = .existing)
    (hans : Answered before out as) :
    let r := replyWhenAlive out status fun status =>
      let t := tcpsenddata out (some (replyHeader env 0 status))
      (t.2, if t.1 ≠ 1 then errnoOr env.sendErrno EPIPE else if status = EEXIST then 0 else status)
    Serves cfg log base w₀ n x before as w ⟨inb, r.1, v, r.2⟩ := by
  have hcopied := hans.copied env rfl hx
  have hne : x.2 ≠ .gone := by
    intro h
    simp [h] at hx
  have hlives := hd.lives hne
  rw [hd.status]
  exact ⟨hd.implements, hd.room, hlives, hcopied.1, hcopied.2⟩

theorem copy_answers (name c : Bytes) (protoCmd : Byte) :
    let x := s.serve metaName (if protoCmd = STORAGE_PROTO_CMD_SYNC_CREATE_FILE then
      .create STORAGE_OP_TYPE_REPLICA_CREATE_FILE name c
      else .update STORAGE_OP_TYPE_REPLICA_UPDATE_FILE name c)
    x.2 = .done ∨ x.2 = .existing := by
  dsimp only
  split_ifs
  · unfold Store.serve
    dsimp only
    split_ifs
    · exact .inr rfl
    · exact .inl rfl
  · exact .inl rfl

theorem delete_answers (op : Byte) (name : Bytes) :
    (s.serve metaName (.delete op name)).2 = .done ∨
      (s.serve metaName (.delete op name)).2 = .missing := by
  unfold Store.serve
  dsimp only
  split_ifs
  · exact .inr rfl
  · exact .inl rfl

/-- The buffer of a download, and the answer it is. -/
theorem read_buff (s : Files) (name : Bytes) :
    let a := (s.files name).elim .missing Answer.content
    s.files name = none ∧ (a = .missing ∨ a = .nothing) ∨
      ∃ c, s.files name = some c ∧ a = .content c := by
  cases s.files name with
  | none => exact .inl ⟨rfl, .inl rfl⟩
  | some c => exact .inr ⟨c, rfl, rfl⟩

theorem companion_buff (s : Files) (name : Bytes) :
    let a := (s.serve metaName (.readCompanion name)).2
    let buff := if (s.files name).isSome = true then s.files (metaName name) else none
    buff = none ∧ (a = .missing ∨ a = .nothing) ∨ ∃ c, buff = some c ∧ a = .content c := by
  cases hf : s.files name with
  | none => exact .inl ⟨by simp, .inl (by simp [Store.serve, hf])⟩
  | some b => cases hf' : s.files (metaName name) with
    | none => exact .inl ⟨by simp, .inr (by simp [Store.serve, hf, hf'])⟩
    | some c => exact .inr ⟨c, by simp, by simp [Store.serve, hf, hf']⟩

theorem companion_of_buff {name c : Bytes}
    (h : (if (s.files name).isSome = true then s.files (metaName name) else none) = some c) :
    s.files (metaName name) = some c := by
  split_ifs at h
  exact h

/-- A buffer, or the lack of one, is answered. -/
theorem ne_gone_of_buff {a : Answer Bytes} {buff : Option Bytes}
    (h : buff = none ∧ (a = .missing ∨ a = .nothing) ∨ ∃ c, buff = some c ∧ a = .content c) :
    a ≠ .gone := by
  rintro rfl
  simp at h

theorem handler_serves (h : Implements cfg log base w₀ w s) (henv : Calm env) (r : SentRequest)
    (hr : Usable cfg w₀ log r) (hlen : ((package cfg.groupName r).length : ℤ) < INT_MAX)
    (hn : 0 ≤ n) (hroom : Room (288 + n) w) (hans : Answered before out as) {inb : Inbound}
    (hrecv : (receiveBody env r.cmd (package cfg.groupName r).length inb).2 =
      .ok (package cfg.groupName r))
    (hheard : (receiveBody env r.cmd (package cfg.groupName r).length inb).1.Heard) :
    ∃ f, handler cfg env r.cmd = some f ∧ Serves cfg log base w₀ n
      (s.serve metaName (asked r)) before as w (f (package cfg.groupName r).length inb out w) := by
  cases r with
  | syncCopy protoCmd hcmd filename content =>
    refine ⟨storageSyncCopyFile cfg env protoCmd, ?_, ?_⟩
    · obtain rfl | rfl := hcmd <;> rfl
    have hlt := filename.lt
    have hsize : (content.length : ℤ) ≤ INT_MAX := by
      rw [length_package_syncCopy] at hlen
      omega
    have hdoes := copy_does h henv hr.1 hr.2 (by omega) hsize hn hroom protoCmd
    have hparse := @parseSyncCopy_package cfg protoCmd hcmd filename content _ rfl hlen
    have hreq (n : ℤ) : receiveBody env protoCmd n inb = recvAllocated env 34 n n inb := by
      simp only [receiveBody, ne_upload_of_isSyncCopy hcmd, hcmd, if_true, if_false]
    simp only [SentRequest.cmd, hreq] at hrecv hheard
    simp only [storageSyncCopyFile, withBody, Outbound.awaiting_heard hheard, hrecv, Except.bind,
      hparse, act]
    exact hdoes.copied (copy_answers _ _ _) hans
  | setMetadata filename merge metaBuff =>
    refine ⟨storageSetMetadata cfg env, rfl, ?_⟩
    have hmark := @mark_leaves cfg log base w₀ w s env filename.bytes h hr (opFlag merge) metaBuff
    have hparse := @parseSetMetadata_package cfg filename merge metaBuff _ rfl hlen
    have hreq : (recvAllocated env 35 (package cfg.groupName
        (.setMetadata filename merge metaBuff)).length (package cfg.groupName
        (.setMetadata filename merge metaBuff)).length inb).2 =
        .ok (package cfg.groupName (.setMetadata filename merge metaBuff)) := hrecv
    have hheard' : (recvAllocated env 35 (package cfg.groupName
        (.setMetadata filename merge metaBuff)).length (package cfg.groupName
        (.setMetadata filename merge metaBuff)).length inb).1.Heard := hheard
    have htouch : Implements cfg log base w₀ (w.touch (dataPath cfg filename.bytes)) s :=
      h.congr rfl rfl rfl rfl
    have hsegv : SIGSEGV ≠ 0 := by decide
    simp only [storageSetMetadata, withBody, Outbound.awaiting_heard hheard', hreq, Except.bind,
      hparse, act, hmark, asked, Store.serve]
    cases hf : s.files filename.bytes with
    | none =>
      have hdoes : Does cfg log base w₀ n (s, .missing) w (w.touch (dataPath cfg filename.bytes))
          (some ENOENT) := ⟨htouch, hroom.mono (by omega) rfl, rfl, rfl⟩
      exact hdoes.header (.inr rfl) hans
    | some b =>
      refine ⟨htouch.congr rfl rfl rfl rfl, hroom.mono (by omega) rfl, ?_, hans.gone, ?_⟩
      · simp
      · exact iff_of_false hsegv (by simp [Answer.keeps])
  | named protoCmd hcmd filename =>
    have hlt := filename.lt
    have hparse (mismatch : Errno) :=
      @groupFilename_package cfg protoCmd hcmd filename mismatch
    have hreq (n : ℤ) : receiveBody env protoCmd n inb = recvGroupRequest env n inb := by
      obtain ⟨hupload, hcopy, hset⟩ := hcmd.ne
      simp only [receiveBody, hupload, hcopy, hset, if_false]
    simp only [SentRequest.cmd, hreq] at hrecv hheard
    obtain ⟨hp, hm⟩ := hr
    obtain rfl | rfl | rfl | rfl := id hcmd
    · refine ⟨storageDeleteFile cfg env, rfl, ?_⟩
      have hdoes := delete_does h henv hp hm (by omega) hn hroom
      simp only [storageDeleteFile, withBody, Outbound.awaiting_heard hheard, hrecv, Except.bind,
        hparse, act]
      exact hdoes.header (delete_answers _ _) hans
    · refine ⟨storageDownloadFile cfg env, rfl, ?_⟩
      have hread := h.read hp
      have hbuff := read_buff s filename.bytes
      obtain ⟨hsent, hkeeps⟩ := hans.file env hbuff fun c hc => h.length _ c hp hc
      simp only [storageDownloadFile, withBody, Outbound.awaiting_heard hheard, hrecv, Except.bind,
        hparse, downloadFile, henv.read, hread]
      refine ⟨h.congr rfl rfl rfl rfl, hroom.mono (by omega) rfl, ?_, hsent, hkeeps⟩
      exact ⟨.inl, fun hk => hk.resolve_right (ne_gone_of_buff hbuff)⟩
    · refine ⟨storageGetMetadata cfg env, rfl, ?_⟩
      obtain ⟨v, hread, himp, hsize, hkilled⟩ := companion_read h henv hp hm
      have hbuff := companion_buff s filename.bytes
      obtain ⟨hsent, hkeeps⟩ := hans.file env hbuff fun c hc =>
        h.length _ c hm (companion_of_buff hc)
      simp only [storageGetMetadata, withBody, Outbound.awaiting_heard hheard, hrecv, Except.bind,
        hparse, hread]
      refine ⟨himp, hroom.mono (by omega) hsize, ?_, hsent, hkeeps⟩
      rw [hkilled]
      exact ⟨.inl, fun hk => hk.resolve_right (ne_gone_of_buff hbuff)⟩
    · refine ⟨storageSyncDeleteFile cfg env, rfl, ?_⟩
      have hdoes := remove_does h henv hp (by omega) hn hroom
      simp only [storageSyncDeleteFile, withBody, Outbound.awaiting_heard hheard, hrecv,
        Except.bind, hparse, act]
      exact hdoes.header (.inl rfl) hans

end Handlers

end DemoStorage.StoreService
