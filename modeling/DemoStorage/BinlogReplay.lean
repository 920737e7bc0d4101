import DemoStorage.StoreLayout
import DemoStorage.BinlogDecoding
import DemoStorage.ReplicaRedelivery

/-!
# The store as the replay of its log

Each action changes a file or two and then writes a record or two. Between the change and
the record the store is ahead of the log by some edits, and every exit taken there leaves it
so. An action keeps the store to the replay of its log when each edit it makes is logged
whole, and no record is written of an edit it did not make.
-/

namespace DemoStorage.BinlogReplay
open ByteStrings PosixFileTree SocketTransfers DaemonState BinlogWriting BinlogOutcomes
open FileEffects RequestHandlers UploadExits BinlogText StoreRequests LogWrites ConditionedRuns
open SetJournals StoreLayout BinlogDecoding ReplicaRedelivery

/-- What an operation says about the name behind it. -/
def opEdit (op : Byte) (name : Bytes) : Option (Edit Bytes) :=
  if op = STORAGE_OP_TYPE_SOURCE_CREATE_FILE ∨ op = STORAGE_OP_TYPE_REPLICA_CREATE_FILE ∨
      op = STORAGE_OP_TYPE_SOURCE_UPDATE_FILE ∨ op = STORAGE_OP_TYPE_REPLICA_UPDATE_FILE then
    some (.add name)
  else if op = STORAGE_OP_TYPE_SOURCE_DELETE_FILE ∨ op = STORAGE_OP_TYPE_REPLICA_DELETE_FILE then
    some (.drop name)
  else none

def recordEdit (r : LogRecord) : Option (Edit Bytes) := opEdit r.op r.filename

/-- The edits a binlog lists; a line that is no record lists none. -/
def edits (rs : List (Option LogRecord)) : List (Edit Bytes) :=
  rs.filterMap fun r => r.bind recordEdit

/-- The files are those the binlog gives over the files at the beginning. -/
def Replayed (cfg : Config) (l : Loc) (s : Set Bytes) (w : World) : Prop :=
  ∃ text, w.tree.content l = some text ∧
    Existing cfg w = replay s (edits (decodeBinlog text))

/-- The files are those the log gives once some more edits are appended to it. -/
structure Ahead (cfg : Config) (l : Loc) (s : Set Bytes) (es : List (Edit Bytes)) (w : World) :
    Prop where
  offLog : ∀ name, InLayout name → w.locate (dataPath cfg name) ≠ .ok l
  records : ∃ rs : List LogRecord, Holds l w (encodeBinlog rs) ∧ (∀ r ∈ rs, OneLine r) ∧
    Existing cfg w = replay s (rs.filterMap recordEdit ++ es)

/-- The record is one line, and the whole of it reaches the log. -/
structure Lands (f : BinlogFaults) (w : World) (op : Byte) (name : Bytes) : Prop where
  line : newline ∉ cstr name
  reaches : Reaches f w (recordText (logRecord f op name))

/-- The whole record reaches the log, or nothing of it. -/
def Whole (f : BinlogFaults) (w : World) (op : Byte) (name : Bytes) : Prop :=
  Lands f w op name ∨ Unprinted f (recordText (logRecord f op name))

section Logs
variable {cfg : Config} {l : Loc} {s : Set Bytes} {es : List (Edit Bytes)} {e : Edit Bytes}
  {f : BinlogFaults} {w v : World} {op : Byte} {name : Bytes}

theorem opEdit_ne_newline (h : opEdit op name = some e) : op ≠ newline := by
  rintro rfl
  simp [opEdit, newline, STORAGE_OP_TYPE_SOURCE_CREATE_FILE, STORAGE_OP_TYPE_REPLICA_CREATE_FILE,
    STORAGE_OP_TYPE_SOURCE_UPDATE_FILE, STORAGE_OP_TYPE_REPLICA_UPDATE_FILE,
    STORAGE_OP_TYPE_SOURCE_DELETE_FILE, STORAGE_OP_TYPE_REPLICA_DELETE_FILE] at h

private theorem edits_map_some (rs : List LogRecord) :
    edits (rs.map some) = rs.filterMap recordEdit := by
  rw [edits, List.filterMap_map]
  rfl

/-- With nothing ahead the store is the replay of the log. -/
theorem Ahead.replayed (h : Ahead cfg l s [] w) : Replayed cfg l s w := by
  obtain ⟨rs, hhold, hline, he⟩ := h.records
  refine ⟨_, hhold.content, ?_⟩
  rw [decodeBinlog_encode hline, edits_map_some, he, List.append_nil]

theorem ahead_initial (h : Holds l w [])
    (ho : ∀ name, InLayout name → w.locate (dataPath cfg name) ≠ .ok l) :
    Ahead cfg l (Existing cfg w) [] w := ⟨ho, [], h, by simp, rfl⟩

/-- A step outside the log that edits the files. -/
theorem Ahead.edit (h : Ahead cfg l s es w) (ho : OffLog l w v) (fs : List (Edit Bytes))
    (he : Existing cfg v = replay (Existing cfg w) fs) : Ahead cfg l s (es ++ fs) v := by
  obtain ⟨rs, hhold, hline, hw⟩ := h.records
  refine ⟨fun name hn => ho.locate_ne (h.offLog name hn), rs, hhold.offLog ho, hline, ?_⟩
  rw [he, hw, ← replay_append, List.append_assoc]

theorem Ahead.same (h : Ahead cfg l s es w) (ho : OffLog l w v)
    (he : Existing cfg v = Existing cfg w) : Ahead cfg l s es v := by
  have := h.edit ho [] he
  rwa [List.append_nil] at this

theorem Ahead.calls (h : Ahead cfg l s es w) (cs : List Bytes) :
    Ahead cfg l s es { w with calls := cs } := h.same (offLog_calls w l cs) rfl

/-- An edit that changes nothing may be logged. -/
theorem Ahead.idle (h : Ahead cfg l s [] w) (he : e.apply (Existing cfg w) = Existing cfg w) :
    Ahead cfg l s [e] w := h.edit (.refl w l) [e] he.symm

theorem Lands.congr (h : Lands f w op name) (hn : v.binlogFileSize = w.binlogFileSize) :
    Lands f v op name := ⟨h.line, h.reaches.congr hn⟩

theorem Whole.congr (h : Whole f w op name) (hn : v.binlogFileSize = w.binlogFileSize) :
    Whole f v op name := h.imp (fun hr => hr.congr hn) id

/-- The record of the first edit reaches the log. -/
theorem Ahead.write (h : Ahead cfg l s (e :: es) w) (hr : Lands f w op name)
    (he : opEdit op (cstr name) = some e) : Ahead cfg l s es (storageBinlogWrite cfg f w op name).1 ∧
      Existing cfg (storageBinlogWrite cfg f w op name).1 = Existing cfg w := by
  obtain ⟨rs, hhold, hlines, hw⟩ := h.records
  have hrec := storageBinlogWrite_reaches cfg hhold hr.reaches
  have hexisting := existing_apart hrec.apart h.offLog
  refine ⟨⟨fun n hn => (hrec.apart.locate _ l).not.mpr (h.offLog n hn),
    rs ++ [logRecord f op name], ?_, ?_, ?_⟩, hexisting⟩
  · rw [encodeBinlog_append]
    exact hrec.holds
  · intro r hmem
    obtain hold | hnew := List.mem_append.mp hmem
    · exact hlines r hold
    · rw [List.mem_singleton.mp hnew]
      exact ⟨opEdit_ne_newline he, hr.line⟩
  · have hedit : recordEdit (logRecord f op name) = some e := he
    rw [hexisting, hw, List.filterMap_append, List.filterMap_cons, hedit, List.filterMap_nil,
      List.append_assoc]
    rfl

/-- Nothing of the record reaches the log. -/
theorem Ahead.unwritten (h : Ahead cfg l s es w)
    (hu : Unprinted f (recordText (logRecord f op name))) :
    Ahead cfg l s es (storageBinlogWrite cfg f w op name).1 := by
  obtain ⟨rs, hhold, hlines, hw⟩ := h.records
  obtain ⟨-, hhold', -, hapart, -⟩ := storageBinlogWrite_unprinted cfg hhold hu
  exact ⟨fun n hn => (hapart.locate _ l).not.mpr (h.offLog n hn), rs, hhold', hlines,
    (existing_apart hapart h.offLog).trans hw⟩

/-- A record that changes nothing is whole. -/
theorem Ahead.writeIdle (h : Ahead cfg l s [] w) (hwhole : Whole f w op name)
    (he : opEdit op (cstr name) = some e) (hidle : e.apply (Existing cfg w) = Existing cfg w) :
    Ahead cfg l s [] (storageBinlogWrite cfg f w op name).1 := by
  obtain hr | hu := hwhole
  · exact ((h.idle hidle).write hr he).1
  · exact h.unwritten hu

/-- The status and the size counter behind a record that reaches the log. -/
theorem Ahead.write_result (h : Ahead cfg l s es w) (hr : Lands f w op name)
    (hn : w.binlogFileSize = v.binlogFileSize) :
    ((storageBinlogWrite cfg f w op name).2 = some 0 ↔ f.fflush = none ∧ f.unlock = false) ∧
      ((storageBinlogWrite cfg f w op name).2 = some 0 →
        (storageBinlogWrite cfg f w op name).1.binlogFileSize =
          (counted v (logRecord f op name)).binlogFileSize) := by
  obtain ⟨rs, hhold, -, -⟩ := h.records
  have hrec := storageBinlogWrite_reaches cfg hhold hr.reaches
  refine ⟨hrec.result, fun h0 => ?_⟩
  rw [hrec.size h0]
  simp [counted, nextSize, hn]

end Logs

section Conditions
variable (cfg : Config) (env : RequestEnv) (w : World)

/-- The condition on an unlink and the record of it: a file that was removed is logged, one
that is still there is not, and one that was absent is logged whole or not at all. -/
structure Erases (fault : Option Errno) (goesOn : Prop) (f : BinlogFaults) (op : Byte)
    (name : Bytes) : Prop where
  removed : name ∈ Existing cfg w → fault = none → Lands f w op name
  stays : name ∈ Existing cfg w → fault ≠ none → goesOn →
    Unprinted f (recordText (logRecord f op name))
  absent : name ∉ Existing cfg w → goesOn → Whole f w op name

/-- A file that was removed is logged, and with that logged the metadata file as well. -/
def DeleteKept (filename : Bytes) : Prop :=
  let op := STORAGE_OP_TYPE_SOURCE_DELETE_FILE
  InLayout filename ∧ (filename ∈ Existing cfg w → env.unlinkData = none →
    Lands env.log w op filename ∧ (env.log.fflush = none → env.log.unlock = false →
      Erases cfg (counted w (logRecord env.log op filename)) env.unlinkMeta (env.errno = ENOENT)
        env.metaLog op (filename ++ STORAGE_META_FILE_EXT)))

def SyncDeleteKept (filename : Bytes) : Prop :=
  InLayout filename ∧ Erases cfg w env.unlinkData
    ((unlink env.unlinkData w (dataPath cfg filename)).2 = some ENOENT) env.log
    STORAGE_OP_TYPE_REPLICA_DELETE_FILE filename

/-- The path fits its array; a file that is created is written whole and logged, and one that
is written over is logged whole or not at all. -/
def SyncCopyKept (protoCmd : Byte) (req : SyncCopyRequest) : Prop :=
  InLayout req.filename ∧ (dataPath cfg req.filename).length < MAX_PATH_SIZE ∧
    ∀ k, Opens env.write w (dataPath cfg req.filename) k →
      (req.filename ∉ Existing cfg w → ¬ Reported env.write req.content ∧
        Lands env.log w (copyOp protoCmd) req.filename) ∧
      (req.filename ∈ Existing cfg w → protoCmd ≠ STORAGE_PROTO_CMD_SYNC_CREATE_FILE →
        ¬ Reported env.write req.content → Whole env.log w (copyOp protoCmd) req.filename)

/-- The condition on the metadata of an upload: where it cannot be written the data file is
unlinked and no metadata file is created, and where it is written both files are logged. -/
structure MetaKept (u : UploadRequest) (filename : Bytes) : Prop where
  unopened : (env.metaMalloc = false → ∀ k, ¬ Opens env.metaWrite w (metaFile cfg filename) k) →
    env.unlinkData = none
  torn : ∀ k, Opens env.metaWrite w (metaFile cfg filename) k → env.metaMalloc = false →
    Reported env.metaWrite (sortedMeta cfg u) →
      env.unlinkData = none ∧ cstr filename ++ STORAGE_META_FILE_EXT ∈ Existing cfg w
  logged : ∀ k, Opens env.metaWrite w (metaFile cfg filename) k → env.metaMalloc = false →
    ¬ Reported env.metaWrite (sortedMeta cfg u) →
      let op := STORAGE_OP_TYPE_SOURCE_CREATE_FILE
      let behind := counted w (logRecord env.log op filename)
      Lands env.log w op filename ∧
        (cstr filename ++ STORAGE_META_FILE_EXT ∉ Existing cfg w →
          env.log.fflush = none ∧ env.log.unlock = false ∧
            Lands env.metaLog behind op (cstr filename ++ STORAGE_META_FILE_EXT)) ∧
        (cstr filename ++ STORAGE_META_FILE_EXT ∈ Existing cfg w →
          env.log.fflush = none → env.log.unlock = false →
            Whole env.metaLog behind op (cstr filename ++ STORAGE_META_FILE_EXT))

/-- Where the data file can be opened it is written whole and, without metadata, logged. -/
def UploadKept (u : UploadRequest) : Prop :=
  ∀ filename k, chosen cfg env w u = some filename →
    Opens env.write w (dataFile cfg filename) k →
      InLayout (cstr filename) ∧ ¬ Reported env.write u.content ∧
        (u.metaBytes = 0 → Lands env.log w STORAGE_OP_TYPE_SOURCE_CREATE_FILE filename) ∧
        (u.metaBytes ≠ 0 → MetaKept cfg env w u filename)

/-- The condition on a request. -/
def Kept : StoreRequest → Prop
  | .upload u => UploadKept cfg env w u
  | .delete filename => DeleteKept cfg env w filename
  | .syncCopy protoCmd req => SyncCopyKept cfg env w protoCmd req
  | .syncDelete filename => SyncDeleteKept cfg env w filename

end Conditions

section Steps
variable {cfg : Config} {env : RequestEnv} {l : Loc} {s : Set Bytes} {w v : World} {name : Bytes}

theorem Erases.congr {fault : Option Errno} {goesOn : Prop} {f : BinlogFaults} {op : Byte}
    (h : Erases cfg w fault goesOn f op name)
    (hm : name ∈ Existing cfg v ↔ name ∈ Existing cfg w)
    (hn : v.binlogFileSize = w.binlogFileSize) : Erases cfg v fault goesOn f op name :=
  ⟨fun hin hf => (h.removed (hm.mp hin) hf).congr hn,
    fun hin hf hg => h.stays (hm.mp hin) hf hg,
    fun hin hg => (h.absent (hm.not.mp hin) hg).congr hn⟩

/-- An unlink and the record of it. -/
theorem Ahead.erase {fault : Option Errno} {goesOn : Prop} {f : BinlogFaults} {op : Byte}
    (h : Ahead cfg l s [] w) (hname : InLayout name) (hop : opEdit op name = some (.drop name))
    (hk : Erases cfg w fault goesOn f op name) :
    ((unlink fault w (dataPath cfg name)).2 ≠ none →
      Ahead cfg l s [] (unlink fault w (dataPath cfg name)).1) ∧
    ((unlink fault w (dataPath cfg name)).2 = none ∨ goesOn →
      Ahead cfg l s []
        (storageBinlogWrite cfg f (unlink fault w (dataPath cfg name)).1 op name).1) := by
  have ho := unlink_offLog fault (h.offLog name hname)
  obtain ⟨hdone, hfailed⟩ := @existing_unlink cfg w name fault hname
  have hop' : opEdit op (cstr name) = some (.drop name) := by rwa [hname.cstr_eq]
  by_cases hu : (unlink fault w (dataPath cfg name)).2 = none
  · obtain ⟨hf, hin, he⟩ := hdone hu
    have hahead := h.edit ho [.drop name] he
    have hreach := (hk.removed hin hf).congr ho.same.size
    exact ⟨fun hne => absurd hu hne, fun _ => (hahead.write hreach hop').1⟩
  · obtain ⟨hf, he⟩ := hfailed hu
    have hahead := h.same ho he
    refine ⟨fun _ => hahead, fun hg => ?_⟩
    have hgoes := hg.resolve_left hu
    by_cases hin : name ∈ Existing cfg w
    · exact hahead.unwritten (hk.stays hin (hf hin) hgoes)
    · have hidle : (Edit.drop name).apply (Existing cfg (unlink fault w (dataPath cfg name)).1) =
          Existing cfg (unlink fault w (dataPath cfg name)).1 := by
        rw [he]
        exact apply_drop_of_notMem hin
      exact hahead.writeIdle ((hk.absent hin hgoes).congr ho.same.size) hop' hidle

theorem syncDelete_ahead {filename : Bytes} (h : Ahead cfg l s [] w)
    (hk : SyncDeleteKept cfg env w filename) :
    Ahead cfg l s [] (syncDeleteFile cfg env w filename).1 := by
  obtain ⟨hname, herases⟩ := hk
  obtain ⟨hfailed, hlogged⟩ := h.erase hname rfl herases
  simp only [syncDeleteFile]
  generalize unlink env.unlinkData w (dataPath cfg filename) = u at hfailed hlogged ⊢
  obtain ⟨d, failed⟩ := u
  cases failed with
  | none => exact hlogged (.inl rfl)
  | some e =>
    dsimp only at hfailed hlogged ⊢
    split_ifs with he
    · exact hlogged (.inr (he ▸ rfl))
    · exact hfailed (by simp)

/-- The metadata behind a file that was deleted and logged. -/
private theorem deleteMeta_ahead {filename : Bytes} (h : Ahead cfg l s [] w)
    (hname : InLayout filename)
    (hk : Erases cfg w env.unlinkMeta (env.errno = ENOENT) env.metaLog
      STORAGE_OP_TYPE_SOURCE_DELETE_FILE (filename ++ STORAGE_META_FILE_EXT)) :
    let u := unlink env.unlinkMeta w (dataPath cfg filename ++ STORAGE_META_FILE_EXT)
    (u.2.isSome ∧ env.errno ≠ ENOENT → Ahead cfg l s [] u.1) ∧
      (¬ (u.2.isSome ∧ env.errno ≠ ENOENT) → Ahead cfg l s [] (storageBinlogWrite cfg env.metaLog u.1
        STORAGE_OP_TYPE_SOURCE_DELETE_FILE (filename ++ STORAGE_META_FILE_EXT)).1) := by
  obtain ⟨hstop, hgo⟩ := h.erase hname.metaName rfl hk
  rw [dataPath_meta] at hstop hgo
  refine ⟨fun hfail => hstop (Option.isSome_iff_ne_none.mp hfail.1), fun hnot => hgo ?_⟩
  by_cases hu : (unlink env.unlinkMeta w (dataPath cfg filename ++ STORAGE_META_FILE_EXT)).2 = none
  · exact .inl hu
  · exact .inr (by_contra fun hne => hnot ⟨Option.isSome_iff_ne_none.mpr hu, hne⟩)

/-- The state behind the record of a removed file is the one the metadata's condition is
about. -/
private theorem erases_behind {filename : Bytes} {d x : World}
    (hk : Erases cfg (counted w (logRecord env.log STORAGE_OP_TYPE_SOURCE_DELETE_FILE filename))
      env.unlinkMeta (env.errno = ENOENT) env.metaLog STORAGE_OP_TYPE_SOURCE_DELETE_FILE
      (filename ++ STORAGE_META_FILE_EXT))
    (hd : Existing cfg d = (Edit.drop filename).apply (Existing cfg w))
    (hx : Existing cfg x = Existing cfg d) (hsize : x.binlogFileSize = (counted w
      (logRecord env.log STORAGE_OP_TYPE_SOURCE_DELETE_FILE filename)).binlogFileSize) :
    Erases cfg x env.unlinkMeta (env.errno = ENOENT) env.metaLog
      STORAGE_OP_TYPE_SOURCE_DELETE_FILE (filename ++ STORAGE_META_FILE_EXT) := by
  refine hk.congr ?_ hsize
  rw [hx, hd]
  exact ⟨And.left, fun hin => ⟨hin, metaName_ne filename⟩⟩

theorem delete_ahead {filename : Bytes} (h : Ahead cfg l s [] w)
    (hk : DeleteKept cfg env w filename) :
    Ahead cfg l s [] (deleteFile cfg env w filename).1 := by
  obtain ⟨hname, hkept⟩ := hk
  have ho := unlink_offLog env.unlinkData (h.offLog filename hname)
  obtain ⟨hdone, hfailed⟩ := @existing_unlink cfg w filename env.unlinkData hname
  have hop : opEdit STORAGE_OP_TYPE_SOURCE_DELETE_FILE (cstr filename) = some (.drop filename) := by
    rw [hname.cstr_eq]
    rfl
  simp only [deleteFile]
  generalize unlink env.unlinkData w (dataPath cfg filename) = u at ho hdone hfailed ⊢
  obtain ⟨d, failed⟩ := u
  dsimp only at ho hdone hfailed ⊢
  cases failed with
  | some e =>
    rw [if_pos (Option.isSome_some)]
    exact h.same ho (hfailed (by simp)).2
  | none =>
    obtain ⟨hf, hin, he⟩ := hdone rfl
    obtain ⟨hreach, hmeta⟩ := hkept hin hf
    have hahead : Ahead cfg l s [.drop filename] d := h.edit ho [.drop filename] he
    have hreach' := hreach.congr ho.same.size
    obtain ⟨hresult, hsize⟩ := hahead.write_result hreach' ho.same.size
    obtain ⟨hfirst, hexisting⟩ := hahead.write hreach' hop
    generalize storageBinlogWrite cfg env.log d STORAGE_OP_TYPE_SOURCE_DELETE_FILE filename = x at *
    rw [if_neg (by simp)]
    by_cases h1 : x.2 = some 0
    · obtain ⟨hflush, hunlock⟩ := hresult.mp h1
      have herases := erases_behind (hmeta hflush hunlock) he hexisting (hsize h1)
      obtain ⟨hstop, hgo⟩ := deleteMeta_ahead hfirst hname herases
      rw [if_neg (not_not.mpr h1)]
      by_cases h2 : (unlink env.unlinkMeta x.1
          (dataPath cfg filename ++ STORAGE_META_FILE_EXT)).2.isSome ∧ env.errno ≠ ENOENT
      · rw [if_pos h2]
        exact hstop h2
      · rw [if_neg h2]
        exact hgo h2
    · rw [if_pos h1]
      exact hfirst

theorem copyOp_edit (protoCmd : Byte) (name : Bytes) :
    opEdit (copyOp protoCmd) name = some (.add name) := by
  unfold copyOp
  split <;> rfl

/-- A copy of a file that can be opened. -/
private theorem copyOpened_ahead {protoCmd : Byte} {req : SyncCopyRequest} {k : Loc}
    (h : Ahead cfg l s [] w) (hname : InLayout req.filename)
    (ho : Opens env.write w (dataPath cfg req.filename) k)
    (hnew : req.filename ∉ Existing cfg w → ¬ Reported env.write req.content ∧
      Lands env.log w (copyOp protoCmd) req.filename)
    (hold : req.filename ∈ Existing cfg w → ¬ Reported env.write req.content →
      Whole env.log w (copyOp protoCmd) req.filename) :
    let x := writeToFile env.write w (dataPath cfg req.filename) req.content
    (x.2 ≠ 0 → Ahead cfg l s [] x.1) ∧ (x.2 = 0 →
      Ahead cfg l s [] (storageBinlogWrite cfg env.log x.1 (copyOp protoCmd) req.filename).1) := by
  have hoff := writeToFile_offLog env.write (h.offLog req.filename hname) req.content
  obtain ⟨r, he, h0⟩ := writeToFile_of_opens ho req.content
  have hadd := existing_stored hname ho (reached env.write req.content)
  have hop : opEdit (copyOp protoCmd) (cstr req.filename) = some (.add req.filename) := by
    rw [hname.cstr_eq]
    exact copyOp_edit protoCmd req.filename
  rw [he] at hoff ⊢
  dsimp only
  by_cases hin : req.filename ∈ Existing cfg w
  · have hsame := h.same hoff (hadd.trans (apply_add_of_mem hin))
    refine ⟨fun _ => hsame, fun hr => ?_⟩
    have hmem : req.filename ∈ Existing cfg
        (stored w (dataPath cfg req.filename) k (reached env.write req.content)) := by
      rw [hadd]
      exact Set.mem_insert _ _
    exact hsame.writeIdle ((hold hin (h0.mp hr)).congr rfl) hop
      (apply_add_of_mem hmem)
  · obtain ⟨hshort, hreach⟩ := hnew hin
    have hahead := h.edit hoff [.add req.filename] hadd
    exact ⟨fun hr => absurd (h0.mpr hshort) hr,
      fun _ => (hahead.write (hreach.congr rfl) hop).1⟩

theorem syncCopy_ahead {protoCmd : Byte} {req : SyncCopyRequest} (h : Ahead cfg l s [] w)
    (hk : SyncCopyKept cfg env w protoCmd req) :
    Ahead cfg l s [] (syncCopyFile cfg env protoCmd w req).1 := by
  obtain ⟨hname, hfits, hkept⟩ := hk
  obtain ⟨cs, hstart⟩ := copyStart_eq protoCmd w (dataPath cfg req.filename)
  have hcalls := h.calls cs
  rw [syncCopyFile_eq cfg env protoCmd w req (cutPath_of_fits hfits), hstart]
  dsimp only
  by_cases hexist : protoCmd = STORAGE_PROTO_CMD_SYNC_CREATE_FILE ∧
      w.tree.access w.cwd (dataPath cfg req.filename) = true
  · rw [if_pos hexist]
    exact hcalls
  · rw [if_neg hexist]
    by_cases ho : ∃ k, Opens env.write w (dataPath cfg req.filename) k
    · obtain ⟨k, ho⟩ := ho
      obtain ⟨hnew, hold⟩ := hkept k ho
      have hcreate : req.filename ∈ Existing cfg w →
          protoCmd ≠ STORAGE_PROTO_CMD_SYNC_CREATE_FILE := by
        rintro ⟨-, j, hj, hcontent⟩ hc
        obtain ⟨b, hb⟩ := Option.isSome_iff_exists.mp hcontent
        exact hexist ⟨hc, FileTree.access_eq_true.mpr
          ⟨j, hj, by simp [FileTree.content_eq_some.mp hb]⟩⟩
      obtain ⟨hfail, hdone⟩ := @copyOpened_ahead cfg env l s { w with calls := cs } protoCmd req k
        hcalls hname ho (fun hin => ⟨(hnew hin).1, (hnew hin).2.congr rfl⟩)
        fun hin hs => (hold hin (hcreate hin) hs).congr rfl
      by_cases h0 : (writeToFile env.write { w with calls := cs } (dataPath cfg req.filename)
          req.content).2 = 0
      · rw [if_neg (not_not.mpr h0)]
        exact hdone h0
      · rw [if_pos h0]
        exact hfail h0
    · have hne : errnoOr env.write.errno ENOENT ≠ 0 := errnoOr_ENOENT_ne_zero _
      have hwrite := @writeToFile_of_not_opens env.write { w with calls := cs }
        (dataPath cfg req.filename) (fun k hk => ho ⟨k, hk⟩) req.content
      rw [hwrite, if_pos hne]
      exact hcalls.calls _

section Upload
variable {u : UploadRequest} {filename : Bytes} {k : Loc}

/-- A chosen name is new. -/
theorem notMem_of_chosen (hc : chosen cfg env w u = some filename) :
    cstr filename ∉ Existing cfg w := by
  rintro ⟨-, j, hj, hcontent⟩
  have hnode := node_none_of_chosen hc hj
  simp [FileTree.content, hnode] at hcontent

theorem metaFile_eq (cfg : Config) (filename : Bytes) :
    metaFile cfg filename = dataPath cfg (cstr filename ++ STORAGE_META_FILE_EXT) :=
  (dataPath_meta cfg (cstr filename)).symm

/-- The metadata was written whole. -/
def MetaWritten (cfg : Config) (env : RequestEnv) (w : World) (u : UploadRequest)
    (filename : Bytes) : Prop :=
  ∃ j, Opens env.metaWrite w (metaFile cfg filename) j ∧ env.metaMalloc = false ∧
    ¬ Reported env.metaWrite (sortedMeta cfg u)

/-- The files behind a save: as before, or with those of the upload. -/
def SavedAs (cfg : Config) (env : RequestEnv) (w : World) (u : UploadRequest) (filename : Bytes)
    (d : World) (r : Errno) : Prop :=
  (r ≠ 0 → Existing cfg d = Existing cfg w) ∧
    (r = 0 → u.metaBytes = 0 → Existing cfg d = replay (Existing cfg w) [.add (cstr filename)]) ∧
    (r = 0 → u.metaBytes ≠ 0 → MetaWritten cfg env w u filename ∧
      Existing cfg d = replay (Existing cfg w)
        [.add (cstr filename), .add (cstr filename ++ STORAGE_META_FILE_EXT)])

private theorem existing_storedBoth {j : Loc} (hname : InLayout (cstr filename))
    (ho : Opens env.write w (dataFile cfg filename) k)
    (hj : Opens env.metaWrite w (metaFile cfg filename) j) :
    Existing cfg (storedBoth cfg env w u (dataFile cfg filename) k j) =
      replay (Existing cfg w)
        [.add (cstr filename), .add (cstr filename ++ STORAGE_META_FILE_EXT)] := by
  have hj' : Opens env.metaWrite
      (stored w (dataFile cfg filename) k (reached env.write u.content))
      (dataPath cfg (cstr filename ++ STORAGE_META_FILE_EXT)) j := by
    rw [← metaFile_eq]
    exact (sameLog_stored _ _ _ _).opens.mpr hj
  have hfirst := existing_stored hname ho (reached env.write u.content)
  have hsecond := existing_stored hname.metaName hj' (reached env.metaWrite (sortedMeta cfg u))
  rw [← metaFile_eq, dataFile, hfirst] at hsecond
  exact hsecond

/-- A data file that was added is dropped again. -/
private theorem savedAs_dropped {r : Errno} (hr : r ≠ 0) (hnew : cstr filename ∉ Existing cfg w)
    (hadd : Existing cfg v = (Edit.add (cstr filename)).apply (Existing cfg w)) :
    SavedAs cfg env w u filename (unlink none v (dataFile cfg filename)).1 r := by
  have hin : cstr filename ∈ Existing cfg v := by
    rw [hadd]
    exact Set.mem_insert _ _
  have hdrop := existing_unlink_of_mem hin
  rw [hadd, apply_drop_add hnew] at hdrop
  exact ⟨fun _ => hdrop, fun h0 => absurd h0 hr, fun h0 => absurd h0 hr⟩

/-- The data file is dropped again when the metadata cannot be written. -/
private theorem savedAs_noMeta (hname : InLayout (cstr filename))
    (hnew : cstr filename ∉ Existing cfg w) (ho : Opens env.write w (dataFile cfg filename) k)
    (hs : ¬ Reported env.write u.content) (hm : u.metaBytes ≠ 0) (hk : MetaKept cfg env w u filename)
    (hno : env.metaMalloc = false → ∀ j, ¬ Opens env.metaWrite w (metaFile cfg filename) j) :
    SavedAs cfg env w u filename (saveFileAs cfg env w u (dataFile cfg filename)).1
      (saveFileAs cfg env w u (dataFile cfg filename)).2 := by
  obtain ⟨v, r, hr, hsame, htree, he⟩ := @saveFileAs_noMeta cfg env w u _ k ho hs hm hno
  have hadd : Existing cfg v = (Edit.add (cstr filename)).apply (Existing cfg w) :=
    (existing_of_tree (w := stored w (dataFile cfg filename) k (reached env.write u.content))
      hsame.cwd htree).trans
      (existing_stored hname ho (reached env.write u.content))
  rw [he, hk.unopened hno]
  exact savedAs_dropped hr hnew hadd

/-- A metadata file that existed stays, cut short, and the data file is dropped again. -/
private theorem savedAs_tornMeta {j : Loc} (hname : InLayout (cstr filename))
    (hnew : cstr filename ∉ Existing cfg w) (ho : Opens env.write w (dataFile cfg filename) k)
    (hs : ¬ Reported env.write u.content) (hm : u.metaBytes ≠ 0) (hmalloc : env.metaMalloc = false)
    (hj : Opens env.metaWrite w (metaFile cfg filename) j)
    (hs' : Reported env.metaWrite (sortedMeta cfg u)) (hk : MetaKept cfg env w u filename) :
    SavedAs cfg env w u filename (saveFileAs cfg env w u (dataFile cfg filename)).1
      (saveFileAs cfg env w u (dataFile cfg filename)).2 := by
  obtain ⟨r, hr, he⟩ := @saveFileAs_tornMeta cfg env w u _ k j ho hs hm hmalloc hj hs'
  obtain ⟨hunlink, hmeta⟩ := hk.torn j hj hmalloc hs'
  have hadd : Existing cfg (storedBoth cfg env w u (dataFile cfg filename) k j) =
      (Edit.add (cstr filename)).apply (Existing cfg w) :=
    (existing_storedBoth hname ho hj).trans (apply_add_of_mem (Set.mem_insert_of_mem _ hmeta))
  rw [he, hunlink]
  exact savedAs_dropped hr hnew hadd

/-- Saving the files of an upload that keeps to the condition. -/
theorem saveFileAs_savedAs (hname : InLayout (cstr filename))
    (hnew : cstr filename ∉ Existing cfg w) (ho : Opens env.write w (dataFile cfg filename) k)
    (hs : ¬ Reported env.write u.content)
    (hk : u.metaBytes ≠ 0 → MetaKept cfg env w u filename) :
    SavedAs cfg env w u filename (saveFileAs cfg env w u (dataFile cfg filename)).1
      (saveFileAs cfg env w u (dataFile cfg filename)).2 := by
  by_cases hm : u.metaBytes = 0
  · rw [saveFileAs_plain ho hs hm]
    exact ⟨fun h0 => absurd rfl h0, fun _ _ => existing_stored hname ho (reached env.write u.content),
      fun _ hne => absurd hm hne⟩
  · by_cases hno : env.metaMalloc = false →
        ∀ j, ¬ Opens env.metaWrite w (metaFile cfg filename) j
    · exact savedAs_noMeta hname hnew ho hs hm (hk hm) hno
    · obtain ⟨hmalloc, hex⟩ := Classical.not_imp.mp hno
      obtain ⟨j, hj⟩ := not_forall_not.mp hex
      by_cases hs' : Reported env.metaWrite (sortedMeta cfg u)
      · exact savedAs_tornMeta hname hnew ho hs hm hmalloc hj hs' (hk hm)
      · rw [saveFileAs_full ho hs hm hmalloc hj hs']
        exact ⟨fun h0 => absurd rfl h0, fun _ h0 => absurd h0 hm,
          fun _ _ => ⟨⟨j, hj, hmalloc, hs'⟩, existing_storedBoth hname ho hj⟩⟩

theorem MetaKept.calls (h : MetaKept cfg env w u filename) (cs : List Bytes) :
    MetaKept cfg env { w with calls := cs } u filename := by
  refine ⟨h.unopened, h.torn, fun j hj hmalloc hs => ?_⟩
  obtain ⟨hreach, hnew, hold⟩ := h.logged j hj hmalloc hs
  refine ⟨hreach.congr rfl, fun hin => ?_, fun hin hf hu => (hold hin hf hu).congr rfl⟩
  obtain ⟨hf, hu, hsecond⟩ := hnew hin
  exact ⟨hf, hu, hsecond.congr rfl⟩

/-- Saving an upload leaves nothing ahead of the log when it fails, and its files when it
does not. -/
theorem save_ahead (h : Ahead cfg l s [] w) (hk : UploadKept cfg env w u) :
    let r := storageSaveFile cfg env w u
    (r.2.1 ≠ 0 → Ahead cfg l s [] r.1) ∧ (r.2.1 = 0 → ∃ k, chosen cfg env w u = some r.2.2 ∧
      Opens env.write w (dataFile cfg r.2.2) k ∧ OffLog l w r.1 ∧
        SavedAs cfg env w u r.2.2 r.1 0) := by
  cases hc : chosen cfg env w u with
  | none =>
    obtain ⟨cs, hsave⟩ := storageSaveFile_of_none hc
    rw [hsave]
    have hne : ENOENT ≠ 0 := by decide
    exact ⟨fun _ => h.calls cs, fun h0 => absurd h0 hne⟩
  | some filename =>
    obtain ⟨cs, hsave⟩ := storageSaveFile_of_chosen hc
    by_cases ho : ∃ k, Opens env.write w (dataFile cfg filename) k
    · obtain ⟨k, ho⟩ := ho
      obtain ⟨hname, hs, -, hmeta⟩ := hk filename k hc ho
      have hnew : cstr filename ∉ Existing cfg w := notMem_of_chosen hc
      have hsaved := @saveFileAs_savedAs cfg env { w with calls := cs } u filename k hname hnew ho
        hs fun hm => (hmeta hm).calls cs
      have hdata : World.locate { w with calls := cs } (dataFile cfg filename) ≠ .ok l :=
        h.offLog _ hname
      have hmetafile : World.locate { w with calls := cs }
          (dataFile cfg filename ++ STORAGE_META_FILE_EXT) ≠ .ok l := by
        rw [dataFile, ← dataPath_meta]
        exact h.offLog _ hname.metaName
      have hoff := (offLog_calls w l cs).trans (@saveFileAs_offLog cfg env l _ u _ hdata hmetafile)
      have hresult := hsave _ _ (Prod.mk.eta (p := saveFileAs cfg env { w with calls := cs } u
        (dataFile cfg filename))).symm
      rw [hresult]
      generalize saveFileAs cfg env { w with calls := cs } u (dataFile cfg filename) = x at *
      refine ⟨fun hr => h.same hoff (hsaved.1 hr), fun hr => ⟨k, ?_⟩⟩
      dsimp only at hr ⊢
      rw [hr] at hsaved
      rw [if_pos hr]
      exact ⟨rfl, ho, hoff, hsaved⟩
    · obtain ⟨r, hr, he⟩ := @saveFileAs_refused cfg env { w with calls := cs } u
        (dataFile cfg filename) fun k hk => ho ⟨k, hk⟩
      rw [hsave _ _ he]
      exact ⟨fun _ => (h.calls cs).calls _, fun h0 => absurd h0 hr⟩

/-- The records of an upload with metadata. -/
private theorem uploadRecords_ahead {d : World} (h : Ahead cfg l s [] w) (ho : OffLog l w d)
    (hname : InLayout (cstr filename))
    (he : Existing cfg d = replay (Existing cfg w)
      [.add (cstr filename), .add (cstr filename ++ STORAGE_META_FILE_EXT)])
    (hmeta : MetaWritten cfg env w u filename) (hk : MetaKept cfg env w u filename) :
    let x := storageBinlogWrite cfg env.log d STORAGE_OP_TYPE_SOURCE_CREATE_FILE filename
    (x.2 ≠ some 0 → Ahead cfg l s [] x.1) ∧ (x.2 = some 0 → Ahead cfg l s [] (storageBinlogWrite cfg
      env.metaLog x.1 STORAGE_OP_TYPE_SOURCE_CREATE_FILE
      (cstr filename ++ STORAGE_META_FILE_EXT)).1) := by
  obtain ⟨j, hj, hmalloc, hs⟩ := hmeta
  obtain ⟨hreach, hnew, hold⟩ := hk.logged j hj hmalloc hs
  have hreach' := hreach.congr ho.same.size
  have hop : opEdit STORAGE_OP_TYPE_SOURCE_CREATE_FILE
      (cstr (cstr filename ++ STORAGE_META_FILE_EXT)) =
        some (.add (cstr filename ++ STORAGE_META_FILE_EXT)) := by
    rw [hname.metaName.cstr_eq]
    rfl
  by_cases hin : cstr filename ++ STORAGE_META_FILE_EXT ∈ Existing cfg w
  · have hadd : Existing cfg d = replay (Existing cfg w) [.add (cstr filename)] :=
      he.trans (apply_add_of_mem (Set.mem_insert_of_mem _ hin))
    have hahead := h.edit ho [.add (cstr filename)] hadd
    obtain ⟨hresult, hsize⟩ := hahead.write_result hreach' ho.same.size
    obtain ⟨hfirst, hexisting⟩ := hahead.write hreach' rfl
    refine ⟨fun _ => hfirst, fun h0 => ?_⟩
    obtain ⟨hflush, hunlock⟩ := hresult.mp h0
    have hmem : cstr filename ++ STORAGE_META_FILE_EXT ∈ Existing cfg (storageBinlogWrite cfg
        env.log d STORAGE_OP_TYPE_SOURCE_CREATE_FILE filename).1 := by
      rw [hexisting, hadd]
      exact Set.mem_insert_of_mem _ hin
    exact hfirst.writeIdle ((hold hin hflush hunlock).congr (hsize h0)) hop
      (apply_add_of_mem hmem)
  · obtain ⟨hflush, hunlock, hsecond⟩ := hnew hin
    have hahead := h.edit ho _ he
    obtain ⟨hresult, hsize⟩ := hahead.write_result hreach' ho.same.size
    have h0 := hresult.mpr ⟨hflush, hunlock⟩
    obtain ⟨hfirst, -⟩ := hahead.write hreach' rfl
    exact ⟨fun hne => absurd h0 hne, fun _ =>
      (hfirst.write (hsecond.congr (hsize h0)) hop).1⟩

theorem upload_ahead (h : Ahead cfg l s [] w) (hk : UploadKept cfg env w u) :
    Ahead cfg l s [] (uploadFile cfg env w u).1 := by
  obtain ⟨hfail, hdone⟩ := save_ahead h hk
  simp only [uploadFile]
  generalize storageSaveFile cfg env w u = r at hfail hdone ⊢
  obtain ⟨d, r, filename⟩ := r
  dsimp only at hfail hdone ⊢
  by_cases hr : r = 0
  · obtain ⟨k, hc, ho, hoff, -, hplain, hboth⟩ := hdone hr
    obtain ⟨hname, -, hreach, hmeta⟩ := hk filename k hc ho
    rw [if_neg (not_not.mpr hr)]
    by_cases hm : u.metaBytes = 0
    · have hahead := h.edit hoff _ (hplain rfl hm)
      have hfirst := (hahead.write ((hreach hm).congr hoff.same.size) rfl).1
      by_cases h1 : (storageBinlogWrite cfg env.log d STORAGE_OP_TYPE_SOURCE_CREATE_FILE
          filename).2 = some 0
      · rw [if_neg (not_not.mpr h1), if_pos hm]
        exact hfirst
      · rw [if_pos h1]
        exact hfirst
    · obtain ⟨hwritten, he⟩ := hboth rfl hm
      obtain ⟨hstop, hgo⟩ := uploadRecords_ahead h hoff hname he hwritten (hmeta hm)
      by_cases h1 : (storageBinlogWrite cfg env.log d STORAGE_OP_TYPE_SOURCE_CREATE_FILE
          filename).2 = some 0
      · rw [if_neg (not_not.mpr h1), if_neg hm]
        exact hgo h1
      · rw [if_pos h1]
        exact hstop h1
  · rw [if_pos hr]
    exact hfail hr

end Upload

/-- Every request that keeps to the condition leaves the store with nothing ahead of its log. -/
theorem perform_ahead (h : Ahead cfg l s [] w) {r : StoreRequest} (hk : Kept cfg env w r) :
    Ahead cfg l s [] (perform cfg env w r).1 := by
  cases r with
  | upload u => exact upload_ahead h hk
  | delete filename => exact delete_ahead h hk
  | syncCopy protoCmd req => exact syncCopy_ahead h hk
  | syncDelete filename => exact syncDelete_ahead h hk

end Steps

section Runs
variable {cfg : Config} {l : Loc} {w : World}

/-- A call of one of the handlers whose request, if one is accepted, keeps to the condition. -/
def CallKept (cfg : Config) (w : World) (c : Call) : Prop :=
  isStoreCmd c.cmd ∧ ∀ r, c.received cfg = .ok r → Kept cfg c.env w r

/-- From an empty log on, in every state of a run of such calls the files are the replay of
the log over the files at the beginning. -/
theorem requests_replayed {cs ds : List Call} (hlog : Holds l w [])
    (hoff : ∀ name, InLayout name → w.locate (dataPath cfg name) ≠ .ok l)
    (hcs : Meets (serveCall cfg) (CallKept cfg) w cs) (hp : ds <+: cs) :
    Replayed cfg l (Existing cfg w) (run (serveCall cfg) w ds) := by
  refine Ahead.replayed (hcs.always (ahead_initial hlog hoff) (fun v c hv hc => ?_) hp)
  rw [serveCall_eq hc.1]
  cases hr : c.received cfg with
  | error e => exact hv
  | ok r => exact perform_ahead hv (hc.2 r hr)

/-- A request to create the sample file, with what the binlog write meets. -/
private def copyCall (log : BinlogFaults) : Call where
  env := { log := log }
  cmd := STORAGE_PROTO_CMD_SYNC_CREATE_FILE
  nInPackLen := samplePackage.length
  inbound := ⟨samplePackage, []⟩

theorem sampleRequest_inLayout : InLayout sampleRequest.filename :=
  ⟨0, 0, ascii "f", by decide, by decide, by decide, by decide⟩

theorem freshWorld_offLog (name : Bytes) (h : InLayout name) :
    freshWorld.locate (dataPath sampleConfig name) ≠ .ok sampleLogLoc := by
  intro hl
  obtain ⟨x, y, z, he⟩ := h.place hl
  have hdir : dataDir sampleConfig freshWorld.cwd = [ascii "b", ascii "data"] := by decide +kernel
  rw [hdir] at he
  simpa [sampleLogLoc] using congrArg List.length he

private theorem sample_missing : sampleRequest.filename ∉ Existing sampleConfig freshWorld := by
  have hl : freshWorld.locate (dataPath sampleConfig sampleRequest.filename) = .ok sampleLoc := by
    decide +kernel
  rw [mem_existing sampleRequest_inLayout hl]
  decide +kernel

private theorem lands_sample {w : World} (op : Byte)
    (hsize : nextSize w 12 < SYNC_BINLOG_FILE_MAX_SIZE) : Lands {} w op sampleRequest.filename := by
  have hlen : (recordText (logRecord {} op sampleRequest.filename)).length = 12 := rfl
  refine ⟨by decide, rfl, rfl, ?_, ?_, hlen ▸ hsize⟩
  · rw [hlen]
    decide
  · intro k hk
    cases hk

/-- A file that is created and deleted again. -/
theorem freshWorld_replayed : Replayed sampleConfig sampleLogLoc (Existing sampleConfig freshWorld)
    (run (serveCall sampleConfig) freshWorld [copyCall {}, syncDeleteCall (ascii "00/00/f")]) := by
  have hcopy : CallKept sampleConfig freshWorld (copyCall {}) := by
    refine ⟨by decide, fun r hr => ?_⟩
    have hreceived : (copyCall {}).received sampleConfig =
        .ok (.syncCopy STORAGE_PROTO_CMD_SYNC_CREATE_FILE sampleRequest) := by decide +kernel
    rw [hreceived] at hr
    cases hr
    refine ⟨sampleRequest_inLayout, by decide, fun k _ => ⟨fun _ => ⟨?_, ?_⟩, fun hin => ?_⟩⟩
    · rintro ⟨n, hn, -⟩
      cases hn
    · exact lands_sample _ (by decide +kernel)
    · exact absurd hin sample_missing
  have hdelete : CallKept sampleConfig (serveCall sampleConfig freshWorld (copyCall {}))
      (syncDeleteCall (ascii "00/00/f")) := by
    refine ⟨by decide, fun r hr => ?_⟩
    have hreceived : (syncDeleteCall (ascii "00/00/f")).received sampleConfig =
        .ok (.syncDelete sampleRequest.filename) := by decide +kernel
    rw [hreceived] at hr
    cases hr
    have hreach : Lands {} (serveCall sampleConfig freshWorld (copyCall {}))
        STORAGE_OP_TYPE_REPLICA_DELETE_FILE sampleRequest.filename :=
      lands_sample _ (by decide +kernel)
    exact ⟨sampleRequest_inLayout, fun _ _ => hreach, fun _ hf => absurd rfl hf,
      fun _ _ => .inl hreach⟩
  have hcalls : Meets (serveCall sampleConfig) (CallKept sampleConfig) freshWorld
      [copyCall {}, syncDeleteCall (ascii "00/00/f")] := ⟨hcopy, hdelete, trivial⟩
  exact requests_replayed freshWorld_holds freshWorld_offLog hcalls (List.prefix_refl _)

/-- A copy whose record is not written stays in the store. -/
theorem unloggedCopy_not_replayed : Holds sampleLogLoc freshWorld [] ∧
    (copyCall { lock := true }).received sampleConfig =
      .ok (.syncCopy STORAGE_PROTO_CMD_SYNC_CREATE_FILE sampleRequest) ∧
    InLayout sampleRequest.filename ∧
    ¬ Replayed sampleConfig sampleLogLoc (Existing sampleConfig freshWorld)
      (serveCall sampleConfig freshWorld (copyCall { lock := true })) := by
  refine ⟨freshWorld_holds, by decide +kernel, sampleRequest_inLayout, ?_⟩
  rintro ⟨text, hc, he⟩
  have htext : (serveCall sampleConfig freshWorld (copyCall { lock := true })).tree.content
      sampleLogLoc = some [] := by decide +kernel
  rw [htext] at hc
  cases hc
  have hl : (serveCall sampleConfig freshWorld (copyCall { lock := true })).locate
      (dataPath sampleConfig sampleRequest.filename) = .ok sampleLoc := by decide +kernel
  have hin := (mem_existing sampleRequest_inLayout hl).mpr (by decide +kernel)
  rw [he] at hin
  exact sample_missing hin

end Runs

end DemoStorage.BinlogReplay
