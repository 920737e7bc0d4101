import DemoStorage.PathConfinement
import DemoStorage.BinlogRestart
import DemoStorage.StoreSessions

/-!
# What a session can reach

Whatever a client sends and whatever fails, the thread that serves it makes no directory and
removes none, and files change only where the paths of its requests and the open log lead. With
names that stay inside the data directory nothing else of the disk changes. The error log is not
part of this: it is written below `logs` of the base path, which nothing makes (the start makes
`log`), and is taken as absent.
-/

namespace DemoStorage.SessionFootprints
open ByteStrings LexicalPaths PosixFileTree SocketTransfers GeneratedNames DaemonState
open BinlogWriting BinlogOutcomes FileEffects RequestHandlers ServiceThread ConnectionFraming
open PathConfinement UploadRoundTrip MetadataRecords
open StoreSessions

/-- A place the open log or an allowed path leads to. -/
def Marked (A : Bytes → Prop) (w : World) (l : Loc) : Prop :=
  (∃ s, w.fpBinlog = some s ∧ s.loc = l) ∨ ∃ p, A p ∧ w.locate p = .ok l

/-- Behind a step the directories are the old ones, and files have changed at marked places
only; the log is open at such a place if it is. -/
structure Leaves (A : Bytes → Prop) (w v : World) : Prop where
  apart : Apart (Marked A w) w v
  stream : ∀ s, v.fpBinlog = some s → Marked A w s.loc

section Steps
variable {A B : Bytes → Prop} {w v u : World} {p : Bytes}

theorem Leaves.same (ht : v.tree = w.tree) (hc : v.cwd = w.cwd) (hs : v.fpBinlog = w.fpBinlog) :
    Leaves A w v :=
  ⟨.refl hc ht, fun s h => .inl ⟨s, hs ▸ h, rfl⟩⟩

theorem Leaves.marked (h : Leaves A w v) {l : Loc} (hl : Marked A v l) : Marked A w l := by
  rcases hl with ⟨s, hs, rfl⟩ | ⟨p, hp, hl⟩
  · exact h.stream s hs
  · exact .inr ⟨p, hp, (h.apart.locate p l).mp hl⟩

theorem Leaves.trans (h : Leaves A w v) (h' : Leaves A v u) : Leaves A w u where
  apart := ⟨h'.apart.cwd.trans h.apart.cwd, fun l => (h'.apart.isDir l).trans (h.apart.isDir l),
    fun l hl => (h'.apart.node l fun hm => hl (h.marked hm)).trans (h.apart.node l hl)⟩
  stream s hs := h.marked (h'.stream s hs)

theorem Leaves.imp (h : Leaves A w v) (hAB : ∀ p, A p → B p) : Leaves B w v := by
  have hmark {l : Loc} (hl : Marked A w l) : Marked B w l :=
    hl.imp id fun ⟨p, hp, hl⟩ => ⟨p, hAB p hp, hl⟩
  exact ⟨⟨h.apart.cwd, h.apart.isDir, fun l hl => h.apart.node l fun hm => hl (hmark hm)⟩,
    fun s hs => hmark (h.stream s hs)⟩

theorem writeToFile_leaves (hp : A p) (f : WriteFaults) (buff : Bytes) :
    Leaves A w (writeToFile f w p buff).1 := by
  by_cases ho : ∃ l, Opens f w p l
  · obtain ⟨l, ho⟩ := ho
    rw [writeToFile_eq_stored ho]
    have hl : Marked A w l := .inr ⟨p, hp, ho.2.1⟩
    refine ⟨⟨rfl, fun k => FileTree.isDir_setFile _ _ _ _, fun k hk => ?_⟩,
      fun s hs => .inl ⟨s, hs, rfl⟩⟩
    exact FileTree.node_setFile_of_ne _ _ fun he => hk (he ▸ hl)
  · rw [writeToFile_of_not_opens (not_exists.mp ho)]
    exact .same rfl rfl rfl

theorem unlink_leaves (hp : A p) (fault : Option Errno) : Leaves A w (unlink fault w p).1 := by
  obtain ⟨-, l, hl, he⟩ | ⟨-, e, he⟩ := unlink_cases fault w p
  · rw [he]
    have hm : Marked A w l := .inr ⟨p, hp, hl.1⟩
    exact ⟨⟨rfl, fun k => FileTree.isDir_removeFile _ _ _, fun k hk =>
      FileTree.node_removeFile_of_ne _ fun he => hk (he ▸ hm)⟩, fun s hs => .inl ⟨s, hs, rfl⟩⟩
  · rw [he]
    exact .same rfl rfl rfl

theorem getFileContent_leaves (f : ReadFaults) (p : Bytes) :
    Leaves A w (getFileContent f w p).1 := by
  rw [getFileContent_world]
  exact .same rfl rfl rfl

end Steps

section Log
variable {cfg : Config} {w : World}

/-- A rotation that gets to open the next file leaves the stream closed. -/
theorem openNextWritableBinlog_stream (cfg : Config) (f : RotateFaults) (w : World) :
    (openNextWritableBinlog cfg f w).1.fpBinlog = none := by
  have hdestroy : (storageSyncDestroy f.destroy w).1.fpBinlog = none := by
    unfold storageSyncDestroy
    cases hs : w.fpBinlog <;> split_ifs <;> simp [hs]
  simp only [openNextWritableBinlog]
  generalize (storageSyncDestroy f.destroy w).1 = v at hdestroy ⊢
  have hclear := unlinkExisting_not_readable f.unlink v (getWritableBinlogFilename cfg v)
  have hsame : (unlinkExisting f.unlink v (getWritableBinlogFilename cfg v)).1.fpBinlog = none := by
    rw [← hdestroy]
    unfold unlinkExisting
    dsimp only [fileExists]
    split_ifs
    · obtain ⟨-, l, -, he⟩ | ⟨-, e, he⟩ := unlink_cases f.unlink
        (v.touch (getWritableBinlogFilename cfg v)) (getWritableBinlogFilename cfg v) <;>
      · rw [he]
        rfl
    · rfl
  split
  · exact hsame
  · rename_i hfailed
    split
    · rename_i hr _
      exact absurd hr (hclear (by simpa using hfailed) _)
    · exact hsame

theorem rotateBinlog_stream (cfg : Config) (f : RotateFaults) (w : World) :
    (rotateBinlog cfg f w).1.fpBinlog = none ∨ (rotateBinlog cfg f w).1.fpBinlog = w.fpBinlog := by
  simp only [rotateBinlog]
  have hindex := BinlogRestart.writeToBinlogIndex_fpBinlog cfg f.index
    { w with binlogIndex := wrap32 (w.binlogIndex + 1) }
  generalize writeToBinlogIndex cfg f.index { w with binlogIndex := _ } = r at hindex ⊢
  have hnext := openNextWritableBinlog_stream cfg f r.1
  split_ifs
  · exact .inl hnext
  · exact .inl hnext
  · exact .inr hindex

/-- A binlog write reaches the open log and the paths of the log. -/
theorem storageBinlogWrite_leaves {A : Bytes → Prop} (hA : ∀ p, LogPath cfg p → A p)
    (f : BinlogFaults) (op : Byte) (filename : Bytes) :
    Leaves A w (storageBinlogWrite cfg f w op filename).1 := by
  have hplace {l : Loc} (hl : LogPlace cfg w l) : Marked A w l := by
    rcases hl with hs | hl | hl
    · exact .inl hs
    · exact .inr ⟨_, hA _ (.inl rfl), hl⟩
    · exact .inr ⟨_, hA _ (.inr ⟨_, rfl⟩), hl⟩
  have hapart := storageBinlogWrite_apart cfg f w op filename
  refine ⟨⟨hapart.cwd, hapart.isDir, fun l hl => hapart.node l fun hm => hl (hplace hm)⟩, ?_⟩
  have hout := storageBinlogWrite_outcome cfg f w op filename
  generalize storageBinlogWrite cfg f w op filename = r at hout ⊢
  obtain ⟨v, r⟩ := r
  dsimp only at hout ⊢
  cases hout with
  | nullStream hs => exact fun s hs => .inl ⟨s, hs, rfl⟩
  | refused => exact fun s hs => .inl ⟨s, hs, rfl⟩
  | died => exact fun s hs => .inl ⟨s, hs, rfl⟩
  | torn => exact fun s hs => .inl ⟨s, hs, rfl⟩
  | logged => exact fun s hs => .inl ⟨s, hs, rfl⟩
  | notUnlocked => exact fun s hs => .inl ⟨s, hs, rfl⟩
  | rotated s =>
    intro s' hs'
    rcases rotateBinlog_stream cfg f.rotate
      (flushed w s.loc (recordText (logRecord f op filename))) with hnone | hsame
    · rw [hnone] at hs'
      cases hs'
    · exact .inl ⟨s', hsame ▸ hs', rfl⟩

end Log

section Handlers
variable {cfg : Config} {env : RequestEnv} {A : Bytes → Prop} {w : World} {filename : Bytes}

/-- A name whose file, metadata file and log may be reached. -/
structure Covers (cfg : Config) (A : Bytes → Prop) (filename : Bytes) : Prop where
  data : A (dataPath cfg filename)
  metaFile : A (dataPath cfg filename ++ STORAGE_META_FILE_EXT)
  log : ∀ p, LogPath cfg p → A p

theorem getMetadata_leaves : Leaves A w (getMetadata cfg env w filename).1 := by
  have htested : Leaves A w (fileExists w (dataPath cfg filename)).1 := .same rfl rfl rfl
  simp only [getMetadata]
  generalize fileExists w (dataPath cfg filename) = x at htested ⊢
  obtain ⟨d, exist⟩ := x
  cases exist with
  | false => exact htested
  | true => exact htested.trans (getFileContent_leaves _ _)

theorem deleteFile_leaves (h : Covers cfg A filename) :
    Leaves A w (deleteFile cfg env w filename).1 := by
  have hu : Leaves A w (unlink env.unlinkData w (dataPath cfg filename)).1 :=
    unlink_leaves h.data _
  simp only [deleteFile]
  generalize unlink env.unlinkData w (dataPath cfg filename) = u at hu ⊢
  have hlog := hu.trans (storageBinlogWrite_leaves h.log env.log STORAGE_OP_TYPE_SOURCE_DELETE_FILE
    filename)
  generalize storageBinlogWrite cfg env.log u.1 STORAGE_OP_TYPE_SOURCE_DELETE_FILE filename = x at *
  have hmeta := hlog.trans (unlink_leaves h.metaFile env.unlinkMeta)
  generalize unlink env.unlinkMeta x.1 (dataPath cfg filename ++ STORAGE_META_FILE_EXT) = y at *
  split_ifs
  · exact hu
  · exact hlog
  · exact hmeta
  · exact hmeta.trans (storageBinlogWrite_leaves h.log _ _ _)

theorem syncDeleteFile_leaves (h : Covers cfg A filename) :
    Leaves A w (syncDeleteFile cfg env w filename).1 := by
  have hu : Leaves A w (unlink env.unlinkData w (dataPath cfg filename)).1 :=
    unlink_leaves h.data _
  simp only [syncDeleteFile]
  generalize unlink env.unlinkData w (dataPath cfg filename) = u at hu ⊢
  have hlog := hu.trans (storageBinlogWrite_leaves h.log env.log
    STORAGE_OP_TYPE_REPLICA_DELETE_FILE filename)
  split
  · split_ifs
    · exact hlog
    · exact hu
  · exact hlog

/-- The stub ends the process and changes no file. -/
theorem setMetadata_leaves (r : SetMetadataRequest) : Leaves A w (setMetadata cfg env w r).1 := by
  rw [setMetadata_eq]
  split_ifs
  · exact .same rfl rfl rfl
  · exact .same rfl rfl rfl

theorem syncCopyFile_leaves (protoCmd : Byte) (r : SyncCopyRequest)
    (hdata : A (cutPath (dataPath cfg r.filename))) (hlog : ∀ p, LogPath cfg p → A p) :
    Leaves A w (syncCopyFile cfg env protoCmd w r).1 := by
  generalize hfull : cutPath (dataPath cfg r.filename) = full at hdata
  have hstart : Leaves A w (copyStart protoCmd w full) := by
    obtain ⟨cs, hcs⟩ := copyStart_eq protoCmd w full
    rw [hcs]
    exact .same rfl rfl rfl
  have hwrite := hstart.trans (writeToFile_leaves hdata env.write r.content)
  rw [syncCopyFile_eq cfg env protoCmd w r hfull]
  dsimp only
  split_ifs
  · exact hstart
  · exact hwrite
  · exact hwrite.trans (storageBinlogWrite_leaves hlog _ _ _)

theorem genUnusedFilename_leaves (clock : ℕ → ℤ × ℤ) (size : ℤ) (k i : ℕ) :
    Leaves A w (genUnusedFilename cfg clock size k i w).1 := by
  induction k generalizing i w with
  | zero => exact .same rfl rfl rfl
  | succ k ih =>
    have htested : Leaves A w (fileExists w (dataPath cfg
      (cstr (storageGenFilename cfg.base64 (clock i).1 (clock i).2 size)))).1 := .same rfl rfl rfl
    simp only [genUnusedFilename]
    split
    · exact htested.trans (ih (i + 1))
    · exact htested

theorem saveFileAs_leaves (u : UploadRequest) (h : Covers cfg A filename) :
    Leaves A w (saveFileAs cfg env w u (dataPath cfg filename)).1 := by
  have hwrite : Leaves A w (writeToFile env.write w (dataPath cfg filename) u.content).1 :=
    writeToFile_leaves h.data _ _
  simp only [saveFileAs, saveMetadata]
  generalize writeToFile env.write w (dataPath cfg filename) u.content = x at hwrite ⊢
  generalize storageSortMetadataBuff cfg.qsort env.metaMalloc (u.metaBuff ++ [0]) = m
  have hmeta := hwrite.trans (writeToFile_leaves h.metaFile env.metaWrite (m.2.take u.metaBytes))
  generalize writeToFile env.metaWrite x.1 (dataPath cfg filename ++ STORAGE_META_FILE_EXT)
    (m.2.take u.metaBytes) = y at hmeta ⊢
  split_ifs
  · exact hwrite
  · exact hwrite
  · exact hwrite.trans (unlink_leaves h.data _)
  · exact hmeta.trans (unlink_leaves h.data _)
  · exact hmeta

/-- An upload reaches the paths of the name it has generated. -/
theorem uploadFile_leaves (u : UploadRequest) (hlog : ∀ p, LogPath cfg p → A p)
    (h : ∀ i, Covers cfg A (cstr (storageGenFilename cfg.base64 (env.clock i).1 (env.clock i).2
      u.content.length))) : Leaves A w (uploadFile cfg env w u).1 := by
  have hsave : Leaves A w (storageSaveFile cfg env w u).1 := by
    have hgen := @genUnusedFilename_leaves cfg A w env.clock u.content.length 1024 0
    have hname := @genUnusedFilename_eq cfg env.clock u.content.length 1024 0 w
    unfold storageSaveFile
    generalize genUnusedFilename cfg env.clock u.content.length 1024 0 w = x at hgen hname ⊢
    obtain ⟨v, _ | name⟩ := x
    · exact hgen
    · obtain ⟨j, rfl⟩ := hname rfl
      exact hgen.trans (saveFileAs_leaves u (h j))
  simp only [uploadFile]
  generalize storageSaveFile cfg env w u = x at hsave ⊢
  have hcreate := hsave.trans (storageBinlogWrite_leaves hlog env.log
    STORAGE_OP_TYPE_SOURCE_CREATE_FILE x.2.2)
  generalize storageBinlogWrite cfg env.log x.1 STORAGE_OP_TYPE_SOURCE_CREATE_FILE x.2.2 = y at *
  split_ifs
  · exact hsave
  · exact hcreate
  · exact hcreate
  · exact hcreate.trans (storageBinlogWrite_leaves hlog _ _ _)

end Handlers

section Requests
variable {cfg : Config} {env : RequestEnv} {A : Bytes → Prop} {w : World}
variable {cmd : Byte} {n : ℤ} {inb : Inbound} {filename : Bytes}

/-- The names whose files a request may change: the one it sends, and for an upload those that
can be generated. -/
def Reaches (cfg : Config) (env : RequestEnv) (cmd : Byte) (n : ℤ) (inb : Inbound) (name : Bytes) :
    Prop :=
  if cmd = STORAGE_PROTO_CMD_UPLOAD_FILE then
    ∃ i size, name = cstr (storageGenFilename cfg.base64 (env.clock i).1 (env.clock i).2 size)
  else requestName cfg env cmd n inb = .ok name

theorem act_leaves {α : Type} {req : Except Errno α} {f : α → World × Option Errno}
    (h : ∀ a, req = .ok a → Leaves A w (f a).1) : Leaves A w (act w req f).1 := by
  cases req with
  | error e => exact .same rfl rfl rfl
  | ok a => exact h a rfl

/-- A name the handlers of files find in a package is that of the request. -/
theorem reaches_group {e : Errno} (hu : cmd ≠ STORAGE_PROTO_CMD_UPLOAD_FILE) (hs : ¬ isSyncCopy cmd)
    (hm : cmd ≠ STORAGE_PROTO_CMD_SET_METADATA)
    (h : (recvGroupRequest env n inb).2.bind (groupFilename cfg e) = .ok filename) :
    Reaches cfg env cmd n inb filename := by
  rw [Reaches, if_neg hu, requestName, receiveBody, if_neg hu, if_neg hs, if_neg hm]
  cases hr : (recvGroupRequest env n inb).2 with
  | error e =>
    rw [hr] at h
    cases h
  | ok data =>
    rw [hr] at h
    simp only [Except.bind, hs, hm, if_false, groupFilename] at h ⊢
    split_ifs at h ⊢
    exact h

theorem map_ok_of_bind {α β : Type} {x : Except Errno Bytes} {g : Bytes → Except Errno α} {a : α}
    (φ : α → β) (h : x.bind g = .ok a) : (x.bind fun data => (g data).map φ) = .ok (φ a) := by
  cases x with
  | error e => cases h
  | ok data =>
    simp only [Except.bind] at h ⊢
    rw [h]
    rfl

theorem reaches_copy {r : SyncCopyRequest} (hs : isSyncCopy cmd)
    (h : (recvAllocated env 34 n n inb).2.bind (parseSyncCopy cfg n) = .ok r) :
    Reaches cfg env cmd n inb (r.filename.take (room cfg)) := by
  have hu : cmd ≠ STORAGE_PROTO_CMD_UPLOAD_FILE := by
    rintro rfl
    exact absurd hs (by decide)
  have hname := map_ok_of_bind (fun r => r.filename.take (room cfg)) h
  simp only [Reaches, requestName, receiveBody, hu, hs, if_true, if_false]
  exact hname

theorem copy_leaves {out : Outbound} (hs : isSyncCopy cmd) (hroom : 0 < room cfg ∨ ∀ p, A p)
    (hlog : ∀ p, LogPath cfg p → A p)
    (h : ∀ name, Reaches cfg env cmd n inb name → Covers cfg A name) :
    Leaves A w (storageSyncCopyFile cfg env cmd n inb out w).world := by
  refine act_leaves fun r hr => syncCopyFile_leaves cmd r ?_ hlog
  rcases hroom with hroom | hall
  · rw [cutPath_dataPath hroom]
    exact (h _ (reaches_copy hs hr)).data
  · exact hall _

/-- Whatever a handler is sent and whatever fails: files change at the paths of the request and
of the log. -/
theorem handler_leaves {f : ℤ → Inbound → Outbound → World → Handled}
    (hf : handler cfg env cmd = some f) (hroom : 0 < room cfg ∨ ∀ p, A p)
    (hlog : ∀ p, LogPath cfg p → A p) (h : ∀ name, Reaches cfg env cmd n inb name → Covers cfg A name)
    (out : Outbound) :
    Leaves A w (f n inb out w).world := by
  cases handles_of_handler hf with
  | downloadFile =>
    simp only [storageDownloadFile, withBody]
    cases (recvGroupRequest env n inb).2.bind (groupFilename cfg (errnoOr env.errno EINVAL)) with
    | error e => exact .same rfl rfl rfl
    | ok name => exact getFileContent_leaves _ _
  | getMetadata =>
    simp only [storageGetMetadata, withBody]
    cases (recvGroupRequest env n inb).2.bind (groupFilename cfg EINVAL) with
    | error e => exact .same rfl rfl rfl
    | ok name => exact getMetadata_leaves
  | uploadFile =>
    simp only [storageUploadFile, withBody]
    cases (recvAllocated env 0 sizeofPointer n inb).2.bind fun data =>
      parseUpload n (uploadBuffer env n data) with
    | error e => exact .same rfl rfl rfl
    | ok u =>
      refine uploadFile_leaves u hlog fun i => h _ ?_
      exact (if_pos rfl).mpr ⟨i, u.content.length, rfl⟩
  | deleteFile => exact act_leaves fun name hname =>
      deleteFile_leaves (h name (reaches_group (by decide) (by decide) (by decide) hname))
  | syncCreateFile => exact copy_leaves (.inl rfl) hroom hlog h
  | syncDeleteFile => exact act_leaves fun name hname =>
      syncDeleteFile_leaves (h name (reaches_group (by decide) (by decide) (by decide) hname))
  | syncUpdateFile => exact copy_leaves (.inr rfl) hroom hlog h
  | setMetadata =>
    simp only [storageSetMetadata, withBody]
    cases (recvAllocated env 35 n n inb).2.bind (parseSetMetadata cfg n) with
    | error e => exact .same rfl rfl rfl
    | ok r => exact @setMetadata_leaves cfg env A w r

end Requests

section Sessions
variable {cfg : Config} {envs : ℕ → ThreadEnv} {A : Bytes → Prop} {w : World}
variable {inb : Inbound} {out : Outbound}

/-- The name of a request may be reached. -/
def Within (cfg : Config) (I : Bytes → Prop) : Round → Prop
  | .idle _ _ => True
  | .request q =>
    ∀ name, Reaches cfg q.env.request q.header.cmd q.header.nInPackLen q.body name → I name

theorem checkAndWriteToStatFile_leaves (f : StatFaults) :
    Leaves A w (checkAndWriteToStatFile f w).1 := by
  have hwrite (v : World) : Leaves A v (storageWriteToStatFile f v).1 := by
    unfold storageWriteToStatFile storageWriteToFd
    split
    · exact .same rfl rfl rfl
    · split
      · exact .same rfl rfl rfl
      · split <;> exact .same rfl rfl rfl
  have hcount : Leaves A w { w with statChangeCount := wrap32 (w.statChangeCount + 1) } :=
    .same rfl rfl rfl
  unfold checkAndWriteToStatFile
  dsimp only
  split
  · exact hcount.trans (hwrite _)
  · exact hcount

/-- One turn: behind the handler, and where the loop goes on. -/
theorem serve_leaves {env : ThreadEnv} {start body : Inbound} {header : TrackerHeader}
    (hroom : 0 < room cfg ∨ ∀ p, A p) (hlog : ∀ p, LogPath cfg p → A p)
    (h : Within cfg (Covers cfg A) (.request (serve cfg env start body header out w).1)) :
    (∀ g, (serve cfg env start body header out w).1.handled = some g → Leaves A w g.world) ∧
      ∀ inb' out' v, (serve cfg env start body header out w).2 = some (inb', out', v) →
        Leaves A w v := by
  have hcount : Leaves A w { w with stat := countTotal header.cmd w.stat } := .same rfl rfl rfl
  unfold serve at h ⊢
  dsimp only at h ⊢
  cases hf : handler cfg env.request header.cmd with
  | none => simp
  | some f =>
    simp only [hf, Within] at h ⊢
    have hhandled := @handler_leaves _ _ _ { w with stat := countTotal header.cmd w.stat } _
      _ _ f hf hroom hlog h out
    generalize f header.nInPackLen body out { w with stat := countTotal header.cmd w.stat } = g
      at hhandled ⊢
    have hhandled := hcount.trans hhandled
    refine ⟨fun g' hg => Option.some.inj hg ▸ hhandled, fun inb' out' v hv => ?_⟩
    have hsuccess : Leaves A g.world
        { g.world with stat := countSuccess header.cmd env.now g.world.stat } := .same rfl rfl rfl
    have hstat := hhandled.trans (hsuccess.trans (checkAndWriteToStatFile_leaves env.stat))
    split_ifs at hv
    cases hv
    exact hstat

theorem handled_request {q : Request} {rounds : List Round} {g : Handled}
    (hg : g ∈ handledBy (.request q :: rounds)) : q.handled = some g ∨ g ∈ handledBy rounds := by
  rw [handledBy] at hg
  cases hq : q.handled with
  | none =>
    rw [hq] at hg
    exact .inr hg
  | some g' =>
    rw [hq] at hg
    exact (List.mem_cons.mp hg).imp_left fun he => congrArg some he.symm

theorem serviceLoop_leaves {fuel count : ℕ} (hroom : 0 < room cfg ∨ ∀ p, A p)
    (hlog : ∀ p, LogPath cfg p → A p)
    (h : ∀ r ∈ serviceLoop cfg envs fuel count inb out w, Within cfg (Covers cfg A) r) :
    ∀ g ∈ handledBy (serviceLoop cfg envs fuel count inb out w), Leaves A w g.world := by
  induction fuel generalizing count inb out w with
  | zero => simp [serviceLoop, handledBy]
  | succ fuel ih =>
    simp only [serviceLoop] at h ⊢
    split_ifs at h ⊢
    · simp [handledBy]
    · exact ih fun r hr => h r (List.mem_cons_of_mem _ hr)
    · simp [handledBy]
    · have hserve := serve_leaves hroom hlog (h _ List.mem_cons_self)
      generalize serve cfg (envs count) inb (tcprecvdata inb sizeofHeader).rest
        (decodeHeader (tcprecvdata inb sizeofHeader).data) out w = s at h hserve ⊢
      obtain ⟨q, _ | ⟨inb', out', v⟩⟩ := s
      · intro g hg
        rcases handled_request hg with hq | hg
        · exact hserve.1 g hq
        · cases hg
      · intro g hg
        rcases handled_request hg with hq | hg
        · exact hserve.1 g hq
        · exact (hserve.2 inb' out' v rfl).trans
            (ih (fun r hr => h r (List.mem_cons_of_mem _ hr)) g hg)

/-- Inside the data directory as a client may name it. -/
def StaysInside (cfg : Config) (cwd : Loc) (name : Bytes) : Prop :=
  Inside (dataDir cfg cwd) (lexical cwd (dataPath cfg name))

theorem StaysInside.covers {name : Bytes} (hroom : 0 < room cfg) (h : StaysInside cfg w.cwd name) :
    Covers cfg (fun p => Inside (dataDir cfg w.cwd) (lexical w.cwd p)) name :=
  ⟨h, inside_meta h, fun _ hp => inside_log hroom hp⟩

/-- As built a generated name is that of a directory of the store. -/
theorem generated_stays (cwd : Loc) (t r size : ℤ) :
    StaysInside cfg cwd (cstr (storageGenFilename initialState t r size)) := by
  have hname : cstr (ascii "00/00/" ++ List.replicate 16 0) = ascii "00/00/" := by decide
  have hconfined : Confined (components (ascii "00/00/")) := by decide
  rw [StaysInside, storageGenFilename_initialState, hname, lexical_dataPath]
  exact hconfined.inside _

/-- A request whose name never climbs above the data directory. -/
def Climbless (cfg : Config) : Round → Prop
  | .idle _ _ => True
  | .request q => q.header.cmd = STORAGE_PROTO_CMD_UPLOAD_FILE ∨
    ∀ name ∈ (requestName cfg q.env.request q.header.cmd q.header.nInPackLen q.body).toOption,
      Confined (components name)

instance (cfg : Config) : DecidablePred (Climbless cfg)
  | .idle _ _ => inferInstanceAs (Decidable True)
  | .request _ => inferInstanceAs (Decidable (_ ∨ _))

/-- As built such a request stays inside the data directory. -/
theorem Climbless.within {r : Round} (hbase : cfg.base64 = initialState) (h : Climbless cfg r)
    (cwd : Loc) : Within cfg (StaysInside cfg cwd) r := by
  cases r with
  | idle => trivial
  | request q =>
    intro name hname
    unfold Reaches at hname
    split at hname
    · obtain ⟨i, size, rfl⟩ := hname
      rw [hbase]
      exact generated_stays _ _ _ _
    · rename_i hcmd
      rw [StaysInside, lexical_dataPath]
      exact (h.resolve_left hcmd name (by rw [hname]; rfl)).inside _

theorem copyAndDownload_handled : (handledBy (storageThreadEntrance sampleConfig
    (fun _ => calmTurn) copyAndDownloadStream ⟨[], []⟩ servingWorld)).getLast?.isSome = true := by
  decide +kernel

/-- Whatever a client sends, in whatever pieces, and whatever fails: no request makes or removes
a directory or moves the process to another one. -/
theorem session_keeps_directories (l : Loc) :
    ∀ g ∈ handledBy (storageThreadEntrance cfg envs inb out w),
      g.world.cwd = w.cwd ∧ g.world.tree.isDir l = w.tree.isDir l := by
  intro g hg
  have hleaves := serviceLoop_leaves (A := fun _ => True) (.inr fun _ => trivial)
    (fun _ _ => trivial) (by
    intro r _
    cases r with
    | idle => trivial
    | request q => exact fun _ _ => ⟨trivial, trivial, fun _ _ => trivial⟩) g hg
  exact ⟨hleaves.apart.cwd, hleaves.apart.isDir l⟩

/-- When the names of its requests stay inside the data directory, a session changes nothing
outside except the file of the log that is open; there is no directory for the error log. -/
theorem session_confined (hroom : 0 < room cfg)
    (hnames : ∀ r ∈ storageThreadEntrance cfg envs inb out w,
      Within cfg (StaysInside cfg w.cwd) r)
    {l : Loc} (hl : ¬ Inside (dataDir cfg w.cwd) l) (hlog : ∀ s, w.fpBinlog = some s → s.loc ≠ l) :
    ∀ g ∈ handledBy (storageThreadEntrance cfg envs inb out w),
      g.world.tree.node l = w.tree.node l ∧
        ∀ s, g.world.fpBinlog = some s → s.loc ≠ l := by
  intro g hg
  have hleaves := serviceLoop_leaves (A := fun p => Inside (dataDir cfg w.cwd) (lexical w.cwd p))
    (.inl hroom) (fun _ hp => inside_log hroom hp) (by
      intro r hr
      have hr := hnames r hr
      cases r with
      | idle => trivial
      | request q => exact fun name hname => (hr name hname).covers hroom) g hg
  have hmark : ¬ Marked (fun p => Inside (dataDir cfg w.cwd) (lexical w.cwd p)) w l := by
    rintro (⟨s, hs, rfl⟩ | ⟨p, hp, hloc⟩)
    · exact hlog s hs rfl
    · exact hl (FileTree.locate_lexical hloc ▸ hp)
  exact ⟨hleaves.apart.node l hmark, fun s hs he => hmark (he ▸ hleaves.stream s hs)⟩

/-- A copy and a download are handled, and another directory is as it was. -/
theorem session_confined_copyAndDownload :
    ∃ g, (handledBy (storageThreadEntrance sampleConfig (fun _ => calmTurn) copyAndDownloadStream
        ⟨[], []⟩ servingWorld)).getLast? = some g ∧
      g.world.tree.node [ascii "c"] = servingWorld.tree.node [ascii "c"] ∧
        ∀ s, g.world.fpBinlog = some s → s.loc ≠ [ascii "c"] := by
  have hclimb : ∀ r ∈ storageThreadEntrance sampleConfig (fun _ => calmTurn) copyAndDownloadStream
      ⟨[], []⟩ servingWorld, Climbless sampleConfig r := by decide +kernel
  have hout : ¬ Inside (dataDir sampleConfig servingWorld.cwd) [ascii "c"] := fun h =>
    absurd h.take_eq (by decide +kernel)
  obtain ⟨g, hg⟩ := Option.isSome_iff_exists.mp copyAndDownload_handled
  exact ⟨g, hg, session_confined (by decide) (fun r hr => (hclimb r hr).within rfl _) hout
    (fun s hs => by cases hs; decide) g (List.mem_of_getLast? hg)⟩

theorem session_keeps_directories_copyAndDownload :
    ∃ g, (handledBy (storageThreadEntrance sampleConfig (fun _ => calmTurn) copyAndDownloadStream
        ⟨[], []⟩ servingWorld)).getLast? = some g ∧ g.world.cwd = servingWorld.cwd ∧
      g.world.tree.isDir [ascii "c"] = servingWorld.tree.isDir [ascii "c"] := by
  obtain ⟨g, hg⟩ := Option.isSome_iff_exists.mp copyAndDownload_handled
  exact ⟨g, hg, session_keeps_directories [ascii "c"] g (List.mem_of_getLast? hg)⟩

end Sessions

end DemoStorage.SessionFootprints
