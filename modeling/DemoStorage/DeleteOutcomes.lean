import DemoStorage.ReplyAgreement

/-!
# What a delete has done when it replies 0

`storage_delete_file` unlinks the data file, logs that, unlinks the metadata file and logs
that. Whether the second unlink failed because there is no metadata is read from `errno` once
the failure has been logged, and logging opens a file in a directory that nothing creates:
`errno` is then `ENOENT`, and metadata that could not be removed passes for missing.
`storage_sync_delete_file` reads `errno` before it logs.
-/

namespace DemoStorage.DeleteOutcomes
open ByteStrings LexicalPaths PosixFileTree SocketTransfers DaemonState BinlogWriting
open BinlogOutcomes FileEffects LogWrites KeptPaths RequestHandlers UploadRoundTrip ReplyAgreement

section Logging

/-- `g_error_file_prefix`, which nothing sets. -/
def gErrorFilePrefix : Bytes := []

/-- The log file of `doLog`; the directory made at start is `log`. -/
def logfile (cfg : Config) (errorPrefix : Bytes) : Bytes :=
  cutPath (cfg.basePath ++ ascii "/logs/" ++ errorPrefix ++ ascii ".log")

/-- `errno` behind `doLog`: that of the `fopen`, or of `fcntl` on the standard error if that
fails too. A log file that opens leaves `fp` uninitialised, and nothing is known. -/
def doLog (cfg : Config) (fcntl : Option Errno) (w : World) (errorPrefix : Bytes) : Option Errno :=
  match w.tree.openWrite w.cwd (logfile cfg errorPrefix) false with
  | .error e => some (fcntl.getD e)
  | .ok _ => none

/-- `errno` behind `logError`. -/
def logError (cfg : Config) (fcntl : Option Errno) (w : World) : Option Errno :=
  doLog cfg fcntl w gErrorFilePrefix

variable {cfg : Config} {w : World} {d : Loc}

/-- Without the directory of the log file, logging leaves `ENOENT`. -/
theorem logError_eq_ENOENT (hd : w.locate cfg.basePath = .ok d) (hdir : w.tree.isDir d = true)
    (hlogs : w.tree.node (d ++ [ascii "logs"]) = none)
    (hlen : cfg.basePath.length + 10 < MAX_PATH_SIZE) : logError cfg none w = some ENOENT := by
  have hfile : logfile cfg gErrorFilePrefix = cfg.basePath ++ slash :: (ascii "logs" ++
      slash :: ascii ".log") := by
    have hsplit : ascii "/logs/" ++ gErrorFilePrefix ++ ascii ".log" =
        slash :: (ascii "logs" ++ slash :: ascii ".log") := by decide
    rw [logfile, List.append_assoc, List.append_assoc, ← List.append_assoc _ gErrorFilePrefix,
      hsplit]
    refine List.take_of_length_le ?_
    have htail : (slash :: (ascii "logs" ++ slash :: ascii ".log")).length = 10 := by decide
    rw [List.length_append, htail]
    omega
  have hne : cfg.basePath ++ slash :: (ascii "logs" ++ slash :: ascii ".log") ≠ [] := by
    simp
  have hstart : start w.cwd (cfg.basePath ++ slash :: (ascii "logs" ++ slash :: ascii ".log")) =
      start w.cwd cfg.basePath := by
    cases hb : cfg.basePath with
    | nil => exact absurd hb cfg.basePath_ne
    | cons x p => rfl
  have hcomponents : components (ascii "logs" ++ slash :: ascii ".log") =
      [.name (ascii "logs"), .name (ascii ".log")] := by decide
  have hwalk : w.tree.walk (start w.cwd cfg.basePath) (components cfg.basePath) = .ok d := by
    unfold World.locate FileTree.locate at hd
    rw [if_neg cfg.basePath_ne] at hd
    split at hd
    · rename_i l hl
      rw [hl, Except.ok.inj hd]
    · cases hd
  have hnot : w.tree.isDir (d ++ [ascii "logs"]) = false := by simp [FileTree.isDir, hlogs]
  have hopen : w.tree.openWrite w.cwd (logfile cfg gErrorFilePrefix) false = .error ENOENT := by
    rw [hfile, FileTree.openWrite, FileTree.locate, if_neg hne, hstart, components_append_slash,
      FileTree.walk_append, hwalk, hcomponents]
    simp [Except.bind, FileTree.walk, hdir, Component.apply, hnot, hlogs]
  rw [logError, doLog, hopen]
  rfl

end Logging

section Run
variable (cfg : Config) (env : RequestEnv) (w : World) (filename : Bytes)

def metaPath : Bytes := dataPath cfg filename ++ STORAGE_META_FILE_EXT

def dataRecord : LogRecord := logRecord env.log STORAGE_OP_TYPE_SOURCE_DELETE_FILE filename

def metaRecord : LogRecord :=
  logRecord env.metaLog STORAGE_OP_TYPE_SOURCE_DELETE_FILE (filename ++ STORAGE_META_FILE_EXT)

/-! The states between the steps of a delete. -/

def dataUnlinked : World := (unlink env.unlinkData w (dataPath cfg filename)).1

def dataLogged : World :=
  (storageBinlogWrite cfg env.log (dataUnlinked cfg env w filename)
    STORAGE_OP_TYPE_SOURCE_DELETE_FILE filename).1

def metaUnlinked : World :=
  (unlink env.unlinkMeta (dataLogged cfg env w filename) (metaPath cfg filename)).1

def metaLogged : World :=
  (storageBinlogWrite cfg env.metaLog (metaUnlinked cfg env w filename)
    STORAGE_OP_TYPE_SOURCE_DELETE_FILE (filename ++ STORAGE_META_FILE_EXT)).1

/-- The data file can be removed, and each record will be logged. -/
structure Proceeds : Prop where
  unlinked : Unlinks env.unlinkData w (dataPath cfg filename)
  logged : Logs env.log w (dataRecord env filename)
  metaLogged : Logs env.metaLog (counted w (dataRecord env filename)) (metaRecord env filename)

variable {cfg env w filename}

/-- The steps of a delete that returns 0, each in the state it finds. -/
theorem deleteFile_steps : (deleteFile cfg env w filename).2 = some 0 ↔
    Unlinks env.unlinkData w (dataPath cfg filename) ∧
      Logs env.log (dataUnlinked cfg env w filename) (dataRecord env filename) ∧
      (Unlinks env.unlinkMeta (dataLogged cfg env w filename) (metaPath cfg filename) ∨
        env.errno = ENOENT) ∧
      Logs env.metaLog (metaUnlinked cfg env w filename) (metaRecord env filename) := by
  have hne : some (errnoOr env.errno EACCES) ≠ some 0 := by simpa using errnoOr_ne_zero (by decide)
  rw [← not_not (a := Unlinks _ w _), ← unlink_isSome, ← not_not (a := Unlinks _ (dataLogged ..) _),
    ← unlink_isSome, dataRecord, ← @storageBinlogWrite_eq_zero cfg, metaRecord,
    ← @storageBinlogWrite_eq_zero cfg]
  simp only [deleteFile]
  split_ifs with h1 h2 h3
  · exact iff_of_false hne fun h => h.1 h1
  · exact iff_of_false h2 fun h => h2 h.2.1
  · exact iff_of_false hne fun h => h.2.2.1.elim (fun hu => hu h3.1) h3.2
  · have hmeta := (not_and_or.mp h3).imp_right not_not.mp
    exact ⟨fun h0 => ⟨h1, not_not.mp h2, hmeta, h0⟩, fun h => h.2.2.2⟩

theorem deleteFile_world (h : (deleteFile cfg env w filename).2 = some 0) :
    (deleteFile cfg env w filename).1 = metaLogged cfg env w filename := by
  have hne : some (errnoOr env.errno EACCES) ≠ some 0 := by simpa using errnoOr_ne_zero (by decide)
  simp only [deleteFile] at h ⊢
  split_ifs at h ⊢ with h1 h2 h3
  · exact absurd h hne
  · exact absurd h h2
  · exact absurd h hne
  · rfl

theorem logs_dataUnlinked (cfg : Config) :
    Logs env.log (dataUnlinked cfg env w filename) (dataRecord env filename) ↔
      Logs env.log w (dataRecord env filename) :=
  have hsame := unlink_sameLog env.unlinkData w (dataPath cfg filename)
  Logs.congr hsame.stream hsame.size

/-- The second record meets the log as the first one has left it. -/
theorem logs_metaUnlinked (cfg : Config) (h : Logs env.log w (dataRecord env filename)) :
    Logs env.metaLog (metaUnlinked cfg env w filename) (metaRecord env filename) ↔
      Logs env.metaLog (counted w (dataRecord env filename)) (metaRecord env filename) := by
  have hdata : SameLog w (dataUnlinked cfg env w filename) :=
    unlink_sameLog env.unlinkData w (dataPath cfg filename)
  have hmeta := unlink_sameLog env.unlinkMeta (dataLogged cfg env w filename)
    (metaPath cfg filename)
  have hcount := storageBinlogWrite_counted cfg ((logs_dataUnlinked cfg).mpr h)
  refine Logs.congr (hmeta.stream.trans (hcount.1.trans hdata.stream)) ?_
  refine hmeta.size.trans (hcount.2.trans ?_)
  simp only [counted, nextSize, hdata.size, dataRecord]

/-- The metadata is the same for both unlinks. -/
theorem kept_dataLogged (cfg : Config) (h : Logs env.log w (dataRecord env filename)) :
    Kept (metaPath cfg filename) w (dataLogged cfg env w filename) :=
  (kept_unlink env.unlinkData fun _ => locate_meta_ne).trans
    (kept_logged cfg ((logs_dataUnlinked cfg).mpr h) _)

/-- A delete returns 0 when it proceeds, and the second unlink succeeds or `errno` is
`ENOENT`. -/
theorem deleteFile_eq_zero : (deleteFile cfg env w filename).2 = some 0 ↔
    Proceeds cfg env w filename ∧
      (Unlinks env.unlinkMeta w (metaPath cfg filename) ∨ env.errno = ENOENT) := by
  rw [deleteFile_steps, logs_dataUnlinked cfg]
  constructor
  · rintro ⟨hu, hl, hm, hml⟩
    rw [(kept_dataLogged cfg hl).unlinks] at hm
    exact ⟨⟨hu, hl, (logs_metaUnlinked cfg hl).mp hml⟩, hm⟩
  · rintro ⟨⟨hu, hl, hml⟩, hm⟩
    rw [← (kept_dataLogged cfg hl).unlinks] at hm
    exact ⟨hu, hl, hm, (logs_metaUnlinked cfg hl).mpr hml⟩

end Run

section Deleted
variable (cfg : Config) (env : RequestEnv) (filename : Bytes) (w v : World)

/-- The log has the two records of the delete behind what it had. -/
def Gained : Prop :=
  ∃ l text, Holds l w text ∧
    Holds l v (text ++ recordText (dataRecord env filename) ++ recordText (metaRecord env filename))

/-- Both files are gone and both records are in the log. -/
structure Deleted : Prop where
  data : ¬ Present v (dataPath cfg filename)
  metadata : ¬ Present v (metaPath cfg filename)
  log : Gained env filename w v

/-- The log is a file, at neither path. -/
def LogApart : Prop :=
  ∃ l text, Holds l w text ∧ w.locate (dataPath cfg filename) ≠ .ok l ∧
    w.locate (metaPath cfg filename) ≠ .ok l

variable {cfg env filename w v}

theorem present_of_holds {l : Loc} {text p : Bytes} (h : Holds l w text) (hp : w.locate p = .ok l) :
    Present w p := by
  have hn : (w.tree.content l).isSome = true := by simp [h.content]
  exact present_iff.mpr ⟨l, hp, ((isSome_content _ _).mp hn).1⟩

/-- A logged record stands behind the text. -/
theorem holds_logged (cfg : Config) {f : BinlogFaults} {op : Byte} {name text : Bytes} {l : Loc}
    (hl : Logs f w (logRecord f op name)) (h : Holds l w text) :
    Holds l (storageBinlogWrite cfg f w op name).1 (text ++ recordText (logRecord f op name)) :=
  (storageBinlogWrite_reaches cfg h (Logs.reaches hl)).holds

/-- A run to status 0 has deleted both files exactly when it could, and when the log was not
among them. -/
theorem deleted_iff (h : Proceeds cfg env w filename) :
    Deleted cfg env filename w (metaLogged cfg env w filename) ↔
      (Present w (metaPath cfg filename) → Unlinks env.unlinkMeta w (metaPath cfg filename)) ∧
        LogApart cfg filename w := by
  have hl1 := (logs_dataUnlinked cfg).mpr h.logged
  have hl2 := (logs_metaUnlinked cfg h.logged).mpr h.metaLogged
  have hk1 := kept_dataLogged cfg h.logged
  have hk2 (p : Bytes) : Kept p (metaUnlinked cfg env w filename) (metaLogged cfg env w filename) :=
    kept_logged cfg hl2 p
  have hfails (hn : ¬ Unlinks env.unlinkMeta w (metaPath cfg filename)) :
      Kept (metaPath cfg filename) w (metaLogged cfg env w filename) :=
    (hk1.trans (kept_unlink_of_fails (hk1.unlinks.not.mpr hn) _)).trans (hk2 _)
  -- the data file stays away: the steps behind the unlink are about other places
  have hkdata : Kept (dataPath cfg filename) (dataUnlinked cfg env w filename)
      (metaLogged cfg env w filename) :=
    ((kept_logged cfg hl1 _).trans (kept_unlink env.unlinkMeta fun l hm hd =>
      locate_meta_ne hd hm)).trans (hk2 _)
  constructor
  · rintro ⟨hdata, hmeta, l, text, hw, hv⟩
    have hlocate (p : Bytes) : (metaLogged cfg env w filename).locate p = .ok l ↔
        w.locate p = .ok l := by
      rw [hkdata.locate, dataUnlinked]
      exact (unlink_sameLog env.unlinkData w (dataPath cfg filename)).locate p l
    refine ⟨fun hp => ?_, l, text, hw, ?_, ?_⟩
    · by_contra hn
      exact hmeta ((hfails hn).present.mpr hp)
    · exact fun hp => hdata (present_of_holds hv ((hlocate _).mpr hp))
    · exact fun hp => hmeta (present_of_holds hv ((hlocate _).mpr hp))
  · rintro ⟨hmeta, l, text, hw, hd, hm⟩
    refine ⟨?_, ?_, l, text, hw, ?_⟩
    · rw [hkdata.present]
      exact unlink_gone h.unlinked
    · by_cases hu : Unlinks env.unlinkMeta w (metaPath cfg filename)
      · rw [(hk2 _).present]
        exact unlink_gone (hk1.unlinks.mpr hu)
      · rw [(hfails hu).present]
        exact fun hp => hu (hmeta hp)
    · have h1 : Holds l (dataUnlinked cfg env w filename) text :=
        hw.offLog (unlink_offLog env.unlinkData hd)
      have h2 := holds_logged cfg hl1 h1
      have hm' : (dataLogged cfg env w filename).locate (metaPath cfg filename) ≠ .ok l :=
        (hk1.locate _ l).not.mpr hm
      exact holds_logged cfg hl2 (h2.offLog (unlink_offLog env.unlinkMeta hm'))

end Deleted

section Handler
variable (cfg : Config) (env : RequestEnv) (n : ℤ) (inb : Inbound) (out : Outbound) (w : World)

/-- The file name of a request that passes its checks. -/
def requested : Except Errno Bytes :=
  (recvGroupRequest env n inb).2.bind (groupFilename cfg EINVAL)

/-- The status byte of the reply. -/
def deleteStatus : Option Errno := (storageDeleteFile cfg env n inb ⟨[], []⟩ w).outbound.sent[10]?

/-- Behind a reply with status 0 both files are gone and logged as deleted, and metadata that
cannot be removed does not get this reply. -/
structure Sound : Prop where
  success : deleteStatus cfg env n inb w = some 0 → ∃ filename,
    requested cfg env n inb = .ok filename ∧
      Deleted cfg env filename w (storageDeleteFile cfg env n inb out w).world
  failure : ∀ filename, requested cfg env n inb = .ok filename →
    Present w (metaPath cfg filename) → ¬ Unlinks env.unlinkMeta w (metaPath cfg filename) →
    deleteStatus cfg env n inb w ≠ some 0

/-- A delete that proceeds finds `errno` other than `ENOENT` behind a failure to remove metadata
that is there, and the log is none of its files. -/
structure Careful (filename : Bytes) : Prop where
  metadata : Proceeds cfg env w filename → env.errno = ENOENT →
    Present w (metaPath cfg filename) → Unlinks env.unlinkMeta w (metaPath cfg filename)
  log : Proceeds cfg env w filename →
    (Unlinks env.unlinkMeta w (metaPath cfg filename) ∨ env.errno = ENOENT) →
    LogApart cfg filename w

variable {cfg env n inb w}

theorem sent_sendHeaderReply (env : RequestEnv) (status : Errno) :
    (sendHeaderReply env ⟨[], []⟩ status).1.sent[10]? = some status := by
  simp only [sendHeaderReply, tcpsenddata, sendLoop_nil, List.nil_append]
  simpa using replyHeader_status env 0 status []

/-- The reply has the status of the request, if the client is heard from again. -/
theorem deleteStatus_eq (hheard : (recvGroupRequest env n inb).1.Heard) :
    deleteStatus cfg env n inb w = (act w (requested cfg env n inb) (deleteFile cfg env w)).2 := by
  simp only [deleteStatus, storageDeleteFile, withBody, Outbound.awaiting_heard hheard]
  change (replyWhenAlive _ (act w (requested cfg env n inb) (deleteFile cfg env w)).2 _).1.sent[10]? =
    _
  cases (act w (requested cfg env n inb) (deleteFile cfg env w)).2 with
  | none => rfl
  | some status => exact sent_sendHeaderReply env status

theorem deleteStatus_unheard (hheard : ¬ (recvGroupRequest env n inb).1.Heard) :
    deleteStatus cfg env n inb w = none := by
  obtain ⟨hsent, -⟩ := replyWhenAlive_unheard (Outbound.awaiting_sent _ _)
    (sendHeaderReply_unheard hheard env ⟨[], []⟩)
    (act w (requested cfg env n inb) (deleteFile cfg env w)).2
  exact congrArg (·[10]?) hsent

theorem storageDeleteFile_accepted {filename : Bytes} (h : requested cfg env n inb = .ok filename)
    (hheard : (recvGroupRequest env n inb).1.Heard) :
    deleteStatus cfg env n inb w = (deleteFile cfg env w filename).2 ∧
      (storageDeleteFile cfg env n inb out w).world = (deleteFile cfg env w filename).1 := by
  have hreq : (recvGroupRequest env n inb).2.bind (groupFilename cfg EINVAL) = .ok filename := h
  constructor
  · rw [deleteStatus_eq hheard, h]
    rfl
  · rw [storageDeleteFile, withBody, hreq]
    rfl

theorem storageDeleteFile_refused {e : Errno} (h : requested cfg env n inb = .error e)
    (hheard : (recvGroupRequest env n inb).1.Heard) : deleteStatus cfg env n inb w ≠ some 0 := by
  have hne : e ≠ 0 := groupRequest_ne_zero (by decide) h
  rw [deleteStatus_eq hheard, h]
  exact fun h0 => hne (Option.some.inj h0)

/-- Without the directory of the log file a failure to remove metadata is never reported. -/
theorem metadata_failure_hidden {filename : Bytes} {d : Loc}
    (hname : requested cfg env n inb = .ok filename)
    (hheard : (recvGroupRequest env n inb).1.Heard) (hp : Proceeds cfg env w filename)
    (hd : w.locate cfg.basePath = .ok d) (hdir : w.tree.isDir d = true)
    (hlogs : w.tree.node (d ++ [ascii "logs"]) = none)
    (hlen : cfg.basePath.length + 10 < MAX_PATH_SIZE)
    (herrno : logError cfg none (metaUnlinked cfg env w filename) = some env.errno) :
    deleteStatus cfg env n inb w = some 0 := by
  have hlog := (logs_dataUnlinked cfg).mpr hp.logged
  have hsame := unlink_sameLog env.unlinkData w (dataPath cfg filename)
  have hkept := kept_logged cfg hlog cfg.basePath
  have hsame' := unlink_sameLog env.unlinkMeta (dataLogged cfg env w filename)
    (metaPath cfg filename)
  have hd' : (metaUnlinked cfg env w filename).locate cfg.basePath = .ok d :=
    (hsame'.locate _ d).mpr ((hkept.locate _ d).mpr ((hsame.locate _ d).mpr hd))
  have hdir' : (metaUnlinked cfg env w filename).tree.isDir d = true :=
    (hsame'.isDir d).trans ((hkept.isDir d).trans ((hsame.isDir d).trans hdir))
  have hlogs' : (metaUnlinked cfg env w filename).tree.node (d ++ [ascii "logs"]) = none := by
    have hnone := unlink_node_none env.unlinkData (dataPath cfg filename) hlogs
    have hsome := isSome_node_logged cfg hlog (d ++ [ascii "logs"])
    have hnone' : (dataLogged cfg env w filename).tree.node (d ++ [ascii "logs"]) = none := by
      rw [← Option.not_isSome_iff_eq_none, dataLogged, hsome, dataUnlinked, hnone]
      simp
    exact unlink_node_none env.unlinkMeta _ hnone'
  rw [logError_eq_ENOENT hd' hdir' hlogs' hlen] at herrno
  rw [(storageDeleteFile_accepted ⟨[], []⟩ hname hheard).1, deleteFile_eq_zero]
  exact ⟨hp, .inr (Option.some.inj herrno).symm⟩

/-- Once a request is accepted, the reply is right exactly under the condition. -/
theorem sound_accepted_iff {filename : Bytes} (h : requested cfg env n inb = .ok filename)
    (hheard : (recvGroupRequest env n inb).1.Heard) :
    Sound cfg env n inb out w ↔ Careful cfg env w filename := by
  obtain ⟨hstatus, hworld⟩ := @storageDeleteFile_accepted cfg env n inb out w filename h hheard
  have hzero : deleteStatus cfg env n inb w = some 0 ↔ Proceeds cfg env w filename ∧
      (Unlinks env.unlinkMeta w (metaPath cfg filename) ∨ env.errno = ENOENT) := by
    rw [hstatus, deleteFile_eq_zero]
  have hbehind (h0 : deleteStatus cfg env n inb w = some 0) :
      (storageDeleteFile cfg env n inb out w).world = metaLogged cfg env w filename := by
    rw [hstatus] at h0
    exact hworld.trans (deleteFile_world h0)
  constructor
  · rintro ⟨hsuccess, hfailure⟩
    refine ⟨fun hp he hm => ?_, fun hp hu => ?_⟩
    · by_contra hn
      exact hfailure filename h hm hn (hzero.mpr ⟨hp, .inr he⟩)
    · obtain ⟨name, hname, hd⟩ := hsuccess (hzero.mpr ⟨hp, hu⟩)
      obtain rfl : filename = name := Except.ok.inj (h.symm.trans hname)
      rw [hbehind (hzero.mpr ⟨hp, hu⟩), deleted_iff hp] at hd
      exact hd.2
  · rintro ⟨hmeta, hlog⟩
    refine ⟨fun h0 => ⟨filename, h, ?_⟩, fun name hname hm hn h0 => ?_⟩
    · obtain ⟨hp, hu⟩ := hzero.mp h0
      rw [hbehind h0, deleted_iff hp]
      refine ⟨fun hm => ?_, hlog hp hu⟩
      exact hu.elim id fun he => hmeta hp he hm
    · obtain rfl : filename = name := Except.ok.inj (h.symm.trans hname)
      obtain ⟨hp, hu⟩ := hzero.mp h0
      exact hu.elim hn fun he => hn (hmeta hp he hm)

/-- A delete that replies 0 has deleted, and says so of metadata that stays, exactly when no
reply is sent or it is careful about each accepted name. -/
theorem delete_sound_iff (cfg : Config) (env : RequestEnv) (n : ℤ) (inb : Inbound)
    (out : Outbound) (w : World) : Sound cfg env n inb out w ↔
      ((recvGroupRequest env n inb).1.Heard →
        ∀ filename, requested cfg env n inb = .ok filename → Careful cfg env w filename) := by
  by_cases hheard : (recvGroupRequest env n inb).1.Heard
  · simp only [hheard, true_imp_iff]
    cases hr : requested cfg env n inb with
    | error e =>
      refine iff_of_true ⟨fun h0 => ?_, fun name hname => ?_⟩ fun name hname => ?_
      · exact absurd h0 (storageDeleteFile_refused hr hheard)
      · rw [hr] at hname
        cases hname
      · cases hname
    | ok filename =>
      rw [sound_accepted_iff out hr hheard]
      constructor
      · intro hc name hname
        cases hname
        exact hc
      · exact fun hc => hc filename rfl
  · have hnone : deleteStatus cfg env n inb w ≠ some 0 := by
      rw [deleteStatus_unheard hheard]
      exact Option.some_ne_none 0 |>.symm
    exact iff_of_true ⟨fun h0 => absurd h0 hnone, fun _ _ _ _ => hnone⟩ fun h => absurd h hheard

end Handler

/-- A store with a file, its metadata and its log; nothing has made `/b/logs`. -/
def metadataWorld : World :=
  let dir : Loc := [ascii "b", ascii "data", ascii "00", ascii "00"]
  { sampleWorld with
    tree := (sampleWorld.tree.setFile (dir ++ [ascii "f"]) (ascii "hello")).setFile
      (dir ++ [ascii "f-m"]) (ascii "k") }

/-- The metadata must not be removed, and logging that leaves its own `errno`. -/
def deniedEnv : RequestEnv :=
  { unlinkMeta := some EACCES
    errno := (logError sampleConfig none metadataWorld).getD 0 }

/-- The metadata is still there behind a reply with status 0. -/
theorem deniedMetadata_reported_deleted :
    logError sampleConfig none (dataLogged sampleConfig deniedEnv metadataWorld (ascii "00/00/f")) =
        some deniedEnv.errno ∧
      ¬ Sound sampleConfig deniedEnv 23 ⟨downloadBody sampleConfig
        (ascii "00/00/f"), []⟩ ⟨[], []⟩ metadataWorld := by
  have hreq : requested sampleConfig deniedEnv 23 ⟨downloadBody sampleConfig
      (ascii "00/00/f"), []⟩ = .ok (ascii "00/00/f") := by decide +kernel
  refine ⟨by decide +kernel, fun h => ?_⟩
  refine h.failure (ascii "00/00/f") hreq (by unfold Present; decide +kernel) ?_ (by decide +kernel)
  rintro ⟨hfault, -⟩
  cases hfault

end DemoStorage.DeleteOutcomes
