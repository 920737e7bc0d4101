import DemoStorage.DataDirectories
import DemoStorage.BinlogStarts
import DemoStorage.CounterLifetimes
import DemoStorage.StoreLayout

/-!
# Starting the daemon

`main` makes its directories, opens its log and its statistics and starts its reporters, one
call behind the other, and returns with the first that fails. However far it gets, the files
that are there stay as they are, but for the three it writes itself; and where it comes to accept
connections it has the log open that was there before.
-/

namespace DemoStorage.DaemonStart
open ByteStrings LexicalPaths PosixFileTree DaemonState BinlogWriting BinlogRestart
open SyncStateFile DataDirectories CounterLifetimes ServiceThread StoreLayout
open IniFiles (IniQsort)
open StatisticsSessions (storageWriteToStatFile_world)

def EPERM : Errno := 1
def STORAGE_STAT_FILENAME : Bytes := ascii "storage_stat.dat"

/-- The file `storage_open_storage_stat` reads and writes. -/
def getStorageStatFilename (cfg : Config) : Bytes := cutPath (dataPath cfg STORAGE_STAT_FILENAME)

def checkAndMkLogDir (cfg : Config) (fails : Bool) (errno : Errno) (w : World) : World × Errno :=
  ensureDir fails errno w (cutPath (cfg.basePath ++ ascii "/log"))

structure ListenFaults where
  socket : Bool := false
  setsockopt : Bool := false
  /-- `inet_aton` refuses the address -/
  aton : Bool := false
  bind : Bool := false
  listen : Bool := false

/-- The descriptor, or the number of the call that failed. -/
def socketServer (f : ListenFaults) (sock : ℕ) (bindIpaddr : Bytes) : ℤ :=
  if f.socket then -1
  else if f.setsockopt then -2
  else if cstr bindIpaddr ≠ [] ∧ f.aton then -3
  else if f.bind then -4
  else if f.listen then -5
  else sock

structure LockFaults where
  attrInit : Bool := false
  settype : Bool := false
  mutexInit : Bool := false
  attrDestroy : Bool := false
  errno : Errno := 0

def initPthreadLock (f : LockFaults) : Errno :=
  if f.attrInit || f.settype || f.mutexInit || f.attrDestroy then errnoOr f.errno EAGAIN else 0

def setRandSeed (gettimeofday : Option Errno) : Errno :=
  gettimeofday.elim 0 fun e => errnoOr e EPERM

structure CreateFaults where
  create : ℕ → Bool := fun _ => false
  errno : Errno := 0

/-- The result; what the loop counts is the business of the reporters. -/
def trackerReportThreadStart (f : CreateFaults) (trackers : ℕ) : Errno :=
  if (List.range trackers).any f.create then errnoOr f.errno EAGAIN else 0

structure MainFaults where
  mkdirLog : Bool := false
  errno : Errno := 0
  listen : ListenFaults := {}
  sync : InitFaults := {}
  reporterLock : LockFaults := {}
  dirs : StartFaults := {}
  threadLock : LockFaults := {}
  gettimeofday : Option Errno := none
  stat : OpenStatFaults := {}
  create : CreateFaults := {}
  closeStat : StatFaults := {}

/-- What a start finds: its settings beside those of `Config`, the descriptor it listens on,
the time, and the file of the statistics. -/
structure MainFinds where
  bindAddr : Bytes := []
  trackers : ℕ := 0
  sock : ℕ := 3
  now : ℤ := 0
  qsort : IniQsort
  stat : Option Bytes := none

/-- A call of `main` with its result. -/
abbrev Call := World × SyncState → (World × SyncState) × Errno

def onWorld (f : World → World × Errno) : Call := fun s => (((f s.1).1, s.2), (f s.1).2)

def resultOnly (e : Errno) : Call := fun s => (s, e)

/-- Behind a call that fails `main` clears `g_continue_flag`. -/
def clearing (f : Call) : Call := fun s =>
  let r := f s
  if r.2 ≠ 0 then (({ r.1.1 with continueFlag := false }, r.1.2), r.2) else r

/-- The calls in their order, up to the first that fails. -/
def inTurn : List Call → Call
  | [], s => (s, 0)
  | f :: fs, s =>
    let r := f s
    if r.2 ≠ 0 then r else inTurn fs r.1

def dataDirsCall (cfg : Config) (f : StartFaults) (now : ℤ) : Call := fun s =>
  let r := storageCheckAndMakeDataDirs cfg f now s.1 s.2
  ((r.1, r.2.1), r.2.2)

/-- When a reporter cannot be started the statistics are written once more. -/
def reportersCall (f : MainFaults) (trackers : ℕ) : Call := onWorld fun w =>
  let r := trackerReportThreadStart f.create trackers
  if r ≠ 0 then ((storageWriteToStatFile f.closeStat { w with continueFlag := false }).1, r)
  else (w, 0)

/-- The calls of `main` between its settings and the loop that accepts connections. -/
def mainCalls (cfg : Config) (f : MainFaults) (found : MainFinds) : List Call :=
  [onWorld (checkAndMkLogDir cfg f.mkdirLog f.errno),
   resultOnly (if socketServer f.listen found.sock found.bindAddr < 0 then 5 else 0),
   clearing (onWorld (storageSyncInit cfg f.sync)),
   clearing (resultOnly (initPthreadLock f.reporterLock)),
   clearing (dataDirsCall cfg f.dirs found.now),
   clearing (resultOnly (initPthreadLock f.threadLock)),
   clearing (resultOnly (setRandSeed f.gettimeofday)),
   clearing (onWorld (storageOpenStorageStat found.qsort f.stat found.stat)),
   reportersCall f found.trackers]

/-- A process as far as it gets in a tree; 0 is the loop that accepts connections, anything else
the result of `main`. -/
def startMain (cfg : Config) (f : MainFaults) (found : MainFinds) (tree : FileTree) (cwd : Loc) :
    (World × SyncState) × Errno :=
  inTurn (mainCalls cfg f found) (.initial tree cwd, .initial)

section Trees

/-- No directory goes, and files change only at the written places; at the created ones a file
may appear. -/
structure Spares (written created : Loc → Prop) (t t' : FileTree) : Prop where
  isDir : ∀ l, t.isDir l = true → t'.isDir l = true
  kept : ∀ l, ¬ written l → (t.content l).isSome → t'.content l = t.content l
  rest : ∀ l, ¬ written l → ¬ created l → t'.content l = t.content l

variable {written created : Loc → Prop} {t t' t'' : FileTree}

theorem Spares.refl : Spares written created t t :=
  ⟨fun _ h => h, fun _ _ _ => rfl, fun _ _ _ => rfl⟩

theorem Spares.trans (h : Spares written created t t') (h' : Spares written created t' t'') :
    Spares written created t t'' := by
  constructor
  · exact fun l hl => h'.isDir l (h.isDir l hl)
  · intro l hw hc
    have hkept := h.kept l hw hc
    rw [h'.kept l hw (by rwa [hkept]), hkept]
  · exact fun l hw hc => (h'.rest l hw hc).trans (h.rest l hw hc)

theorem spares_mkdir {cwd : Loc} {p : Bytes} (h : t.mkdir cwd p = .ok t') :
    Spares written created t t' := by
  obtain ⟨l, -, hd, hn, rfl⟩ := FileTree.mkdir_ok h
  have hnode := FileTree.node_makeDir hd hn
  have hcontent (k : Loc) : (t.makeDir l).content k = t.content k := by
    unfold FileTree.content
    rw [hnode]
    split_ifs with hk
    · simp [hk, hn]
    · rfl
  refine ⟨fun k hk => ?_, fun k _ _ => hcontent k, fun k _ _ => hcontent k⟩
  simp only [FileTree.isDir, decide_eq_true_eq] at hk ⊢
  rw [hnode, hk, ite_self]

theorem spares_setFile {l : Loc} (hl : written l) (b : Bytes) :
    Spares written created t (t.setFile l b) := by
  have hcontent (k : Loc) (hk : ¬ written k) : (t.setFile l b).content k = t.content k :=
    FileTree.content_setFile_of_ne _ _ fun he => hk (he ▸ hl)
  exact ⟨fun k hk => by simpa using hk, fun k hk _ => hcontent k hk, fun k hk _ => hcontent k hk⟩

theorem spares_openWrite {cwd l : Loc} {p : Bytes} (hl : created l)
    (h : t.openWrite cwd p false = .ok (l, t')) : Spares written created t t' := by
  unfold FileTree.openWrite at h
  split at h
  · cases h
  · split at h
    · cases h
    · cases h
      exact .refl
    · rename_i hn
      cases h
      refine ⟨fun k hk => by simpa using hk, fun k _ hc => ?_, fun k _ hk => ?_⟩
      · refine FileTree.content_setFile_of_ne _ _ ?_
        rintro rfl
        simp [FileTree.content, hn] at hc
      · exact FileTree.content_setFile_of_ne _ _ fun he => hk (he ▸ hl)

end Trees

section Places

/-- An absolute path does not depend on the working directory. -/
theorem lexical_absolute {p : Bytes} (h : p.head? = some slash) (cwd : Loc) :
    lexical cwd p = lexical [] p := by
  simp only [lexical, start, h, if_true]

theorem head_append {p : Bytes} (h : p.head? = some slash) (q : Bytes) :
    (p ++ q).head? = some slash := by
  cases p with
  | nil => cases h
  | cons a p => exact h

theorem head_cutPath {p : Bytes} (h : p.head? = some slash) :
    (cutPath p).head? = some slash := by
  cases p with
  | nil => cases h
  | cons a p => exact h

/-- The files a start writes: the index it makes when it cannot read one, the state of the
synchronisation, and the statistics, which a world keeps beside its tree. -/
def Written (cfg : Config) (l : Loc) : Prop :=
  l = lexical [] (binlogIndexFilename cfg) ∨ l = lexical [] (syncIniFilename cfg) ∨
    l = lexical [] (getStorageStatFilename cfg)

def logPlace (cfg : Config) : Loc := lexical [] (syncIndexFilename cfg)

variable {cfg : Config} (habs : cfg.basePath.head? = some slash)
include habs

theorem written_index {t : FileTree} {cwd l : Loc}
    (h : t.locate cwd (binlogIndexFilename cfg) = .ok l) : Written cfg l :=
  .inl ((FileTree.locate_lexical h).trans (lexical_absolute
    (head_cutPath (head_append (head_append habs _) _)) cwd))

theorem written_syncIni {t : FileTree} {cwd l : Loc}
    (h : t.locate cwd (syncIniFilename cfg) = .ok l) : Written cfg l :=
  .inr (.inl ((FileTree.locate_lexical h).trans (lexical_absolute
    (head_cutPath (head_append (head_append habs _) _)) cwd)))

theorem lexical_syncIndex (cwd : Loc) : lexical cwd (syncIndexFilename cfg) = logPlace cfg :=
  lexical_absolute (head_cutPath (head_append (head_append (head_cutPath
    (head_append habs _)) _) _)) cwd

theorem locate_logPlace {t : FileTree} {cwd l : Loc}
    (h : t.locate cwd (syncIndexFilename cfg) = .ok l) : l = logPlace cfg :=
  (FileTree.locate_lexical h).trans (lexical_syncIndex habs cwd)

end Places

section Depths
variable {cfg : Config} (hbase : cfg.basePath.length + 23 < MAX_PATH_SIZE)

theorem dataDir_eq (cfg : Config) (cwd : Loc) :
    dataDir cfg cwd = lexical cwd cfg.basePath ++ [ascii "data"] := by
  have hparts : ascii "/data" = slash :: ascii "data" := by decide
  have hname : components (ascii "data") = [.name (ascii "data")] := by decide
  rw [dataDir, hparts, BinlogStarts.lexical_below_base, hname]
  rfl

include hbase

theorem logPlace_eq :
    logPlace cfg = lexical [] cfg.basePath ++ [ascii "sync", ascii "binlog.index"] :=
  BinlogStarts.lexical_syncIndexFilename (by omega)

theorem lexical_binlogIndexFilename (cwd : Loc) : lexical cwd (binlogIndexFilename cfg) =
    lexical cwd cfg.basePath ++ [ascii "data", ascii "sync", ascii "binlog.index"] := by
  have hparts : ascii "/data/sync/" ++ ascii "binlog.index" =
      slash :: ascii "data/sync/binlog.index" := by decide
  have hlen : (slash :: ascii "data/sync/binlog.index").length = 23 := by decide
  have hnames : components (ascii "data/sync/binlog.index") =
      [.name (ascii "data"), .name (ascii "sync"), .name (ascii "binlog.index")] := by decide
  have hfits : binlogIndexFilename cfg = cfg.basePath ++ slash :: ascii "data/sync/binlog.index" := by
    rw [binlogIndexFilename, List.append_assoc, hparts]
    exact List.take_of_length_le (by rw [List.length_append, hlen]; omega)
  rw [hfits, BinlogStarts.lexical_below_base, hnames]
  simp [Component.apply]

theorem lexical_getStorageStatFilename (cwd : Loc) :
    lexical cwd (getStorageStatFilename cfg) = dataDir cfg cwd ++ [STORAGE_STAT_FILENAME] := by
  have hlen : (ascii "/data/" ++ STORAGE_STAT_FILENAME).length = 22 := by decide
  have hname : components STORAGE_STAT_FILENAME = [.name STORAGE_STAT_FILENAME] := by decide
  have hfits : getStorageStatFilename cfg = dataPath cfg STORAGE_STAT_FILENAME := by
    rw [getStorageStatFilename, dataPath, List.append_assoc]
    exact List.take_of_length_le (by rw [List.length_append, hlen]; omega)
  rw [hfits, lexical_dataPath, hname]
  rfl

theorem lexical_syncIniFilename (cwd : Loc) : lexical cwd (syncIniFilename cfg) =
    dataDir cfg cwd ++ [DATA_DIR_INITED_FILENAME] := by
  have hlen : (ascii "/data/" ++ DATA_DIR_INITED_FILENAME).length = 21 := by decide
  have hname : components DATA_DIR_INITED_FILENAME = [.name DATA_DIR_INITED_FILENAME] := by decide
  have hfits : syncIniFilename cfg = dataPath cfg DATA_DIR_INITED_FILENAME := by
    rw [syncIniFilename, dataPath, List.append_assoc]
    exact List.take_of_length_le (by rw [List.length_append, hlen]; omega)
  rw [hfits, lexical_dataPath, hname]
  rfl

theorem logPlace_not_written : ¬ Written cfg (logPlace cfg) := by
  have hsync : ascii "sync" ≠ ascii "data" := by decide
  rintro (h | h | h)
  · rw [logPlace_eq hbase, lexical_binlogIndexFilename hbase] at h
    simp at h
  · rw [logPlace_eq hbase, lexical_syncIniFilename hbase, dataDir_eq, List.append_assoc] at h
    simp [hsync] at h
  · rw [logPlace_eq hbase, lexical_getStorageStatFilename hbase, dataDir_eq, List.append_assoc] at h
    simp [hsync] at h

/-- A file of the layout lies deeper than what a start writes and opens. -/
theorem layout_apart {name : Bytes} (h : InLayout name) :
    ¬ Written cfg (lexical [] (dataPath cfg name)) ∧
      lexical [] (dataPath cfg name) ≠ logPlace cfg := by
  obtain ⟨x, y, z, he⟩ := h.lexical_eq cfg []
  rw [dataDir_eq, List.append_assoc] at he
  constructor
  · rintro (hw | hw | hw) <;> rw [he] at hw
    · rw [lexical_binlogIndexFilename hbase] at hw
      simp at hw
    · rw [lexical_syncIniFilename hbase, dataDir_eq] at hw
      simp at hw
    · rw [lexical_getStorageStatFilename hbase, dataDir_eq] at hw
      simp at hw
  · rw [he, logPlace_eq hbase]
    simp

end Depths

section Calls

/-- What a call of the start does to a world, whether or not it fails. -/
structure Continues (cfg : Config) (w v : World) : Prop where
  tree : Spares (Written cfg) (· = logPlace cfg) w.tree v.tree
  running : v.continueFlag = w.continueFlag
  killed : v.killed = w.killed

/-- What a call does that does not open the log. -/
structure Prepares (cfg : Config) (w v : World) : Prop extends Continues cfg w v where
  stream : v.fpBinlog = w.fpBinlog

variable {cfg : Config} {w v u : World}

theorem Continues.trans (h : Continues cfg w v) (h' : Continues cfg v u) : Continues cfg w u :=
  ⟨h.tree.trans h'.tree, h'.running.trans h.running, h'.killed.trans h.killed⟩

theorem Prepares.same (ht : v.tree = w.tree) (hs : v.fpBinlog = w.fpBinlog)
    (hr : v.continueFlag = w.continueFlag) (hk : v.killed = w.killed) : Prepares cfg w v :=
  ⟨⟨ht ▸ .refl, hr, hk⟩, hs⟩

theorem Prepares.trans (h : Prepares cfg w v) (h' : Prepares cfg v u) : Prepares cfg w u :=
  ⟨h.toContinues.trans h'.toContinues, h'.stream.trans h.stream⟩

theorem ensureDir_prepares (fails : Bool) (errno : Errno) (p : Bytes) :
    Prepares cfg w (ensureDir fails errno w p).1 := by
  unfold ensureDir
  dsimp only [fileExists]
  split_ifs
  · exact .same rfl rfl rfl rfl
  · exact .same rfl rfl rfl rfl
  · split
    · rename_i t ht
      exact ⟨⟨spares_mkdir ht, rfl, rfl⟩, rfl⟩
    · exact .same rfl rfl rfl rfl

theorem mkdir_prepares (fault : Option Errno) (p : Bytes) :
    Prepares cfg w (SyncStateFile.mkdir fault w p).1 := by
  unfold SyncStateFile.mkdir
  split
  · exact .same rfl rfl rfl rfl
  · split
    · rename_i t ht
      exact ⟨⟨spares_mkdir ht, rfl, rfl⟩, rfl⟩
    · exact .same rfl rfl rfl rfl

theorem chdir_prepares (fails : Bool) (p : Bytes) : Prepares cfg w (chdir fails w p).1 := by
  unfold chdir
  split
  · split_ifs <;> exact .same rfl rfl rfl rfl
  · exact .same rfl rfl rfl rfl

theorem makeDataDir_prepares (fault : Option Errno) (p tested : Bytes) :
    Prepares cfg w (makeDataDir fault w p tested).1 := by
  have hmk : Prepares cfg w (SyncStateFile.mkdir fault w p).1 := mkdir_prepares fault p
  unfold makeDataDir
  split
  · rename_i v he
    rwa [he] at hmk
  · rename_i v e he
    rw [he] at hmk
    dsimp only [fileExists]
    split_ifs <;> exact hmk.trans (.same rfl rfl rfl rfl)

theorem makeSubDirs_prepares (f : DirFaults) (i : ℕ) (ks : List ℕ) :
    Prepares cfg w (makeSubDirs f i ks w).1 := by
  induction ks generalizing w with
  | nil => exact .same rfl rfl rfl rfl
  | cons k ks ih =>
    have hmk : Prepares cfg w (makeDataDir (f.sub i k) w (hexPair k) (hexPair i)).1 :=
      makeDataDir_prepares _ _ _
    rw [makeSubDirs]
    dsimp only
    split_ifs
    · exact hmk.trans ih
    · exact hmk

theorem makeDataDirs_prepares (f : DirFaults) (is : List ℕ) :
    Prepares cfg w (makeDataDirs f is w).1 := by
  induction is generalizing w with
  | nil => exact .same rfl rfl rfl rfl
  | cons i is ih =>
    have hmade : Prepares cfg w (turnMade f i w) := makeDataDir_prepares _ _ _
    have hentered : Prepares cfg w (turnEntered f i w).1 := hmade.trans (chdir_prepares _ _)
    have hfilled : Prepares cfg w (turnFilled f i w).1 := hentered.trans (makeSubDirs_prepares _ _ _)
    have hleft : Prepares cfg w (turnLeft f i w).1 := hfilled.trans (chdir_prepares _ _)
    rw [makeDataDirs_eq]
    split_ifs
    · exact hmade
    · exact hentered
    · exact hfilled
    · exact hleft
    · exact hleft.trans ih

theorem storageSyncDestroy_same (f : DestroyFaults) (w : World) :
    (storageSyncDestroy f w).1.tree = w.tree ∧
      (storageSyncDestroy f w).1.continueFlag = w.continueFlag ∧
      (storageSyncDestroy f w).1.killed = w.killed := by
  unfold storageSyncDestroy
  split <;> split_ifs <;> exact ⟨rfl, rfl, rfl⟩

variable (habs : cfg.basePath.head? = some slash)
include habs

theorem storageWriteToSyncIniFile_prepares (f : SyncIniFaults) (g : SyncState) :
    Prepares cfg w (storageWriteToSyncIniFile cfg f w g).1 := by
  unfold storageWriteToSyncIniFile
  dsimp only
  split
  · exact .same rfl rfl rfl rfl
  · split
    · exact .same rfl rfl rfl rfl
    · rename_i l t ho
      obtain ⟨hl, -, rfl | ⟨hfalse, -⟩⟩ := FileTree.openWrite_ok ho
      · have hw := written_syncIni habs hl
        exact ⟨⟨(spares_setFile hw _).trans (spares_setFile hw _), rfl, rfl⟩, rfl⟩
      · cases hfalse

theorem storageCheckAndMakeDataDirs_prepares (f : StartFaults) (now : ℤ) (g : SyncState) :
    Prepares cfg w (storageCheckAndMakeDataDirs cfg f now w g).1 := by
  have hensured : Prepares cfg w (startEnsured cfg f w) := ensureDir_prepares _ _ _
  rw [start_eq]
  split_ifs
  · exact hensured
  · have hentered := hensured.trans (chdir_prepares f.chdir (dataText cfg))
    generalize chdir f.chdir (startEnsured cfg f w) (dataText cfg) = r at hentered ⊢
    obtain ⟨v, entered⟩ := r
    dsimp only [startRest] at hentered ⊢
    have hagain : Prepares cfg w
        (if entered then (v, none) else SyncStateFile.mkdir f.mkdirAgain v (dataText cfg)).1 := by
      split
      · exact hentered
      · exact hentered.trans (mkdir_prepares _ _)
    generalize (if entered then (v, none) else SyncStateFile.mkdir f.mkdirAgain v (dataText cfg)) =
      r at hagain ⊢
    have hfilled := (hagain.trans (.same rfl rfl rfl rfl : Prepares cfg r.1
      (r.1.touch DATA_DIR_INITED_FILENAME))).trans
        (makeDataDirs_prepares f.dirs (List.range DATA_DIR_COUNT_PER_PATH))
    split_ifs
    · exact hagain
    · exact hfilled
    · exact hfilled.trans (storageWriteToSyncIniFile_prepares habs _ _)

theorem writeToBinlogIndex_prepares (f : IndexFaults) :
    Prepares cfg w (writeToBinlogIndex cfg f w).1 := by
  unfold writeToBinlogIndex
  dsimp only
  split
  · exact .same rfl rfl rfl rfl
  · split
    · exact .same rfl rfl rfl rfl
    · rename_i l t ho
      obtain ⟨hl, -, rfl | ⟨hfalse, -⟩⟩ := FileTree.openWrite_ok ho
      · have hw := written_index habs hl
        split_ifs <;> exact ⟨⟨(spares_setFile hw _).trans (spares_setFile hw _), rfl, rfl⟩, rfl⟩
      · cases hfalse

theorem readBinlogIndex_prepares (f : InitFaults) :
    (∀ v, readBinlogIndex cfg f w = .goOn v → Prepares cfg w v) ∧
      ∀ v r, readBinlogIndex cfg f w = .done v r → Prepares cfg w v := by
  have hzero : Prepares cfg w { w.touch (syncIndexFilename cfg) with binlogIndex := 0 } :=
    .same rfl rfl rfl rfl
  have hindex := hzero.trans (writeToBinlogIndex_prepares habs f.index)
  simp only [readBinlogIndex]
  constructor
  · intro v h
    split at h
    · split_ifs at h
      cases h
      exact .same rfl rfl rfl rfl
    · split_ifs at h
      cases h
      exact hindex
  · intro v r h
    split at h
    · split_ifs at h <;> cases h <;> exact .same rfl rfl rfl rfl
    · split_ifs at h <;> cases h
      · exact .same rfl rfl rfl rfl
      · exact hindex

theorem openBinlogStream_continues (f : InitFaults) :
    Continues cfg w (openBinlogStream cfg f w).1 := by
  simp only [openBinlogStream]
  split
  · exact ⟨.refl, rfl, rfl⟩
  · split
    · exact ⟨.refl, rfl, rfl⟩
    · rename_i l t ho
      have ht : Spares (Written cfg) (· = logPlace cfg) w.tree t :=
        spares_openWrite (locate_logPlace habs (FileTree.openWrite_ok ho).1) ho
      generalize (if f.ftell = true then (-1 : ℤ) else _) = size
      split_ifs
      · obtain ⟨htree, hflag, hkilled⟩ := storageSyncDestroy_same f.destroy
          { w.touch (syncIndexFilename cfg) with
            tree := t, fpBinlog := some ⟨l, true⟩, binlogFileSize := size }
        exact ⟨htree ▸ ht, hflag, hkilled⟩
      · exact ⟨ht, rfl, rfl⟩
      · exact ⟨ht, rfl, rfl⟩

theorem storageSyncInit_continues (f : InitFaults) :
    Continues cfg w (storageSyncInit cfg f w).1 := by
  have hdata : Prepares cfg w
      (ensureDir f.mkdirData f.errno w (cutPath (cfg.basePath ++ ascii "/data"))).1 :=
    ensureDir_prepares _ _ _
  simp only [storageSyncInit]
  split_ifs with h1 h2
  · exact hdata.toContinues
  · exact (hdata.trans (ensureDir_prepares _ _ _)).toContinues
  · have hsync := hdata.trans (ensureDir_prepares f.mkdirSync f.errno
      (cutPath (cfg.basePath ++ ascii "/sync")))
    generalize (ensureDir f.mkdirSync f.errno
      (ensureDir f.mkdirData f.errno w (cutPath (cfg.basePath ++ ascii "/data"))).1
      (cutPath (cfg.basePath ++ ascii "/sync"))).1 = v at hsync ⊢
    obtain ⟨hgoOn, hdone⟩ := @readBinlogIndex_prepares _ v habs f
    split
    · rename_i u r hr
      exact (hsync.trans (hdone u r hr)).toContinues
    · rename_i u hr
      exact (hsync.trans (hgoOn u hr)).toContinues.trans (openBinlogStream_continues habs f)

end Calls

section Starts
variable {cfg : Config}

theorem storageOpenStorageStat_prepares (q : IniQsort) (f : OpenStatFaults) (found : Option Bytes)
    (w : World) : Prepares cfg w (storageOpenStorageStat q f found w).1 := by
  unfold storageOpenStorageStat
  split
  · exact .same rfl rfl rfl rfl
  · dsimp only
    split_ifs
    · exact .same rfl rfl rfl rfl
    · obtain ⟨b, hb⟩ := storageWriteToStatFile_world f.stat
        { w with stat := _, statFile := found.getD [] }
      rw [hb]
      exact .same rfl rfl rfl rfl

/-- What every call keeps, the calls in turn keep. -/
theorem inTurn_keeps {I : World × SyncState → Prop} {fs : List Call}
    (h : ∀ f ∈ fs, ∀ s, I s → I (f s).1) {s : World × SyncState} (hs : I s) :
    I (inTurn fs s).1 := by
  induction fs generalizing s with
  | nil => exact hs
  | cons f fs ih =>
    have hf := h f List.mem_cons_self s hs
    simp only [inTurn]
    split_ifs
    · exact hf
    · exact ih (fun g hg => h g (List.mem_cons_of_mem _ hg)) hf

theorem inTurn_ok {f : Call} {fs : List Call} {s : World × SyncState}
    (h : (inTurn (f :: fs) s).2 = 0) : (f s).2 = 0 ∧ inTurn (f :: fs) s = inTurn fs (f s).1 := by
  simp only [inTurn] at h ⊢
  split_ifs at h ⊢ with h0
  · exact absurd h h0
  · exact ⟨not_not.mp h0, rfl⟩

theorem clearing_tree (f : Call) (s : World × SyncState) :
    (clearing f s).1.1.tree = (f s).1.1.tree := by
  simp only [clearing]
  split_ifs <;> rfl

theorem clearing_ok {f : Call} {s : World × SyncState} (h : (clearing f s).2 = 0) :
    (f s).2 = 0 ∧ (clearing f s).1 = (f s).1 := by
  simp only [clearing] at h ⊢
  split_ifs at h ⊢ with h0
  · exact absurd h h0
  · exact ⟨not_not.mp h0, rfl⟩

theorem reportersCall_tree (f : MainFaults) (n : ℕ) (s : World × SyncState) :
    (reportersCall f n s).1.1.tree = s.1.tree := by
  simp only [reportersCall, onWorld]
  split_ifs
  · obtain ⟨b, hb⟩ := storageWriteToStatFile_world f.closeStat { s.1 with continueFlag := false }
    rw [hb]
  · rfl

/-- However far a start gets and whatever fails, it spares the files that are there. -/
theorem start_spares (habs : cfg.basePath.head? = some slash) (f : MainFaults)
    (found : MainFinds) (tree : FileTree) (cwd : Loc) :
    Spares (Written cfg) (· = logPlace cfg) tree (startMain cfg f found tree cwd).1.1.tree := by
  let I (s : World × SyncState) := Spares (Written cfg) (· = logPlace cfg) tree s.1.tree
  have hkeeps : ∀ g ∈ mainCalls cfg f found, ∀ s, I s → I (g s).1 := by
    intro g hg s hs
    simp only [mainCalls, List.mem_cons, List.not_mem_nil, or_false] at hg
    rcases hg with rfl | rfl | rfl | rfl | rfl | rfl | rfl | rfl | rfl
    · exact hs.trans (ensureDir_prepares _ _ _).tree
    · exact hs
    · simp only [I, clearing_tree]
      exact hs.trans (storageSyncInit_continues habs f.sync).tree
    · simp only [I, clearing_tree]
      exact hs
    · simp only [I, clearing_tree]
      exact hs.trans (storageCheckAndMakeDataDirs_prepares habs f.dirs _ _).tree
    · simp only [I, clearing_tree]
      exact hs
    · simp only [I, clearing_tree]
      exact hs
    · simp only [I, clearing_tree]
      exact hs.trans (storageOpenStorageStat_prepares _ _ _ _).tree
    · simp only [I, reportersCall_tree]
      exact hs
  exact inTurn_keeps hkeeps (I := I) .refl

theorem inTurn_append_ok {fs hs : List Call} {g : Call} {s : World × SyncState}
    (h : (inTurn (fs ++ g :: hs) s).2 = 0) :
    ∃ s', (g s').2 = 0 ∧ inTurn (fs ++ g :: hs) s = inTurn hs (g s').1 := by
  induction fs generalizing s with
  | nil =>
    obtain ⟨hg, he⟩ := inTurn_ok h
    exact ⟨s, hg, he⟩
  | cons f fs ih =>
    rw [List.cons_append] at h ⊢
    obtain ⟨-, he⟩ := inTurn_ok h
    rw [he] at h ⊢
    exact ih h

/-- What keeps the statistics from being read is reported. -/
theorem readStat_ne_zero {q : IniQsort} {f : IniFiles.IniFaults} {found : Option Bytes} :
    readStat q f found ≠ .error 0 := by
  have hmem (e : Errno) : errnoOr e ENOMEM ≠ 0 := errnoOr_ne_zero (by decide)
  have hitems (text : Bytes) : IniFiles.iniLoadItems q f text ≠ .error 0 := by
    unfold IniFiles.iniLoadItems
    split
    · exact fun h => hmem _ (Except.error.inj h)
    · exact fun h => hmem _ (Except.error.inj h)
    · dsimp only
      split
      · split_ifs
        · exact fun h => hmem _ (Except.error.inj h)
        · simp
      · simp
  cases found with
  | none => simp [readStat]
  | some text =>
    simp only [readStat]
    cases hi : IniFiles.iniLoadItems q f text with
    | error e => exact fun h => hitems text (by rw [hi, Except.error.inj h])
    | ok items =>
      dsimp only
      split_ifs
      · exact fun h => absurd (Except.error.inj h) (show ENOENT ≠ 0 by decide)
      · simp

/-- A write of the statistics that is not reported leaves the whole text. -/
theorem storageWriteToFd_ok {f : StatFaults} {w : World} {buff : Bytes}
    (h : (storageWriteToFd f w buff).2 = 0) :
    (storageWriteToFd f w buff).1 = { w with statFile := buff } := by
  have hne := errnoOr_ENOENT_ne_zero f.errno
  unfold storageWriteToFd at h ⊢
  by_cases ht : f.ftruncate = true
  · rw [if_pos ht] at h
    exact absurd h hne
  rw [if_neg ht] at h ⊢
  by_cases hl : f.lseek = true
  · rw [if_pos hl] at h
    exact absurd h hne
  rw [if_neg hl] at h ⊢
  cases hw : f.write with
  | none => rfl
  | some k =>
    simp only [hw] at h ⊢
    by_cases hshort : k < buff.length
    · rw [if_pos hshort] at h
      exact absurd h hne
    · rw [List.take_of_length_le (not_lt.mp hshort)]

/-- Statistics that are opened are those of the file, and stand in it. -/
theorem storageOpenStorageStat_ok {q : IniQsort} {f : OpenStatFaults} {found : Option Bytes}
    {w : World} (h : (storageOpenStorageStat q f found w).2 = 0) :
    readStat q f.ini found = .ok (storageOpenStorageStat q f found w).1.stat ∧
      (storageOpenStorageStat q f found w).1.statFile =
        statText (storageOpenStorageStat q f found w).1.stat := by
  unfold storageOpenStorageStat at h ⊢
  cases hread : readStat q f.ini found with
  | error e =>
    simp only [hread] at h
    exact absurd (h ▸ hread) readStat_ne_zero
  | ok stat =>
    simp only [hread] at h ⊢
    by_cases hopen : f.openFails = true
    · rw [if_pos hopen] at h
      exact absurd h (errnoOr_ENOENT_ne_zero _)
    · rw [if_neg hopen] at h ⊢
      rw [storageWriteToStatFile, storageWriteToFd_ok h]
      exact ⟨rfl, rfl⟩

/-- A start that comes to accept connections has the counters of its statistics file, or new
ones, and the file has them. -/
theorem start_statistics {f : MainFaults} {found : MainFinds} {tree : FileTree} {cwd : Loc}
    (h : (startMain cfg f found tree cwd).2 = 0) :
    readStat found.qsort f.stat.ini found.stat =
        .ok (startMain cfg f found tree cwd).1.1.stat ∧
      (startMain cfg f found tree cwd).1.1.statFile =
        statText (startMain cfg f found tree cwd).1.1.stat := by
  have hcalls : ∃ fs, mainCalls cfg f found =
      fs ++ clearing (onWorld (storageOpenStorageStat found.qsort f.stat found.stat)) ::
        [reportersCall f found.trackers] := ⟨(mainCalls cfg f found).take 7, rfl⟩
  obtain ⟨fs, hfs⟩ := hcalls
  rw [startMain, hfs] at h ⊢
  obtain ⟨s, hstat, he⟩ := inTurn_append_ok h
  obtain ⟨hopen, hs⟩ := clearing_ok hstat
  rw [he, hs] at h ⊢
  obtain ⟨hlast, he⟩ := inTurn_ok h
  have hkeeps : (reportersCall f found.trackers
      (onWorld (storageOpenStorageStat found.qsort f.stat found.stat) s).1).1 =
      (onWorld (storageOpenStorageStat found.qsort f.stat found.stat) s).1 := by
    simp only [reportersCall, onWorld] at hlast ⊢
    split_ifs at hlast ⊢ with h0
    · exact absurd hlast h0
    · rfl
  rw [he, hkeeps]
  exact storageOpenStorageStat_ok hopen

/-- However far a start of the daemon gets, whatever it finds and whatever fails in it, no
directory goes, no file changes but the three it writes itself, and every name of the store has
the content it had. Of the three, the statistics have the counters that were read from them
where the start comes to accept connections. -/
theorem start_loses_nothing (habs : cfg.basePath.head? = some slash)
    (hbase : cfg.basePath.length + 23 < MAX_PATH_SIZE) (f : MainFaults) (found : MainFinds)
    (tree : FileTree) (cwd : Loc) :
    (∀ l, tree.isDir l = true → (startMain cfg f found tree cwd).1.1.tree.isDir l = true) ∧
      (∀ l c, l ≠ lexical [] (binlogIndexFilename cfg) → l ≠ lexical [] (syncIniFilename cfg) →
        l ≠ lexical [] (getStorageStatFilename cfg) → tree.content l = some c →
        (startMain cfg f found tree cwd).1.1.tree.content l = some c) ∧
      (∀ name, InLayout name →
        (startMain cfg f found tree cwd).1.1.tree.content (lexical [] (dataPath cfg name)) =
          tree.content (lexical [] (dataPath cfg name))) ∧
      ((startMain cfg f found tree cwd).2 = 0 → ∃ stat,
        readStat found.qsort f.stat.ini found.stat = .ok stat ∧
          (startMain cfg f found tree cwd).1.1.statFile = statText stat) := by
  have h := start_spares habs f found tree cwd
  refine ⟨h.isDir, fun l c hindex hini hstat hc => ?_, fun name hname => ?_, fun h0 => ?_⟩
  · rw [h.kept l (by simp [Written, hindex, hini, hstat]) (by rw [hc]; rfl), hc]
  · obtain ⟨hwritten, hlog⟩ := layout_apart hbase hname
    exact h.rest _ hwritten hlog
  · exact ⟨_, start_statistics h0⟩

def plainFinds : MainFinds := { qsort := IniFiles.insertionIniQsort }

/-- A start that cannot enter one of the directories it makes. -/
def notEntered : MainFaults := { dirs := { dirs := { enter := fun i => i = 3 } } }

theorem start_loses_nothing_notEntered :
    (∀ l, sampleTree.isDir l = true →
        (startMain sampleConfig notEntered plainFinds sampleTree []).1.1.tree.isDir l = true) ∧
      (∀ l c, l ≠ lexical [] (binlogIndexFilename sampleConfig) →
        l ≠ lexical [] (syncIniFilename sampleConfig) →
        l ≠ lexical [] (getStorageStatFilename sampleConfig) → sampleTree.content l = some c →
        (startMain sampleConfig notEntered plainFinds sampleTree []).1.1.tree.content l = some c) ∧
      (∀ name, InLayout name →
        (startMain sampleConfig notEntered plainFinds sampleTree []).1.1.tree.content
            (lexical [] (dataPath sampleConfig name)) =
          sampleTree.content (lexical [] (dataPath sampleConfig name))) ∧
      ((startMain sampleConfig notEntered plainFinds sampleTree []).2 = 0 → ∃ stat,
        readStat plainFinds.qsort notEntered.stat.ini plainFinds.stat = .ok stat ∧
          (startMain sampleConfig notEntered plainFinds sampleTree []).1.1.statFile =
            statText stat) :=
  start_loses_nothing (by decide) (by decide) notEntered plainFinds sampleTree []

/-- A name below a directory. -/
theorem locate_below {t : FileTree} {cwd k : Loc} {p c : Bytes} (hl : t.locate cwd p = .ok k)
    (hd : t.isDir k = true) (hc : slash ∉ c) :
    t.locate cwd (p ++ slash :: c) = .ok ((component c).apply k) := by
  unfold FileTree.locate at hl ⊢
  split at hl
  · cases hl
  · rename_i hne
    split at hl
    · rename_i m hm
      obtain rfl := Except.ok.inj hl
      have hstart : start cwd (p ++ slash :: c) = start cwd p := by
        obtain ⟨a, q, rfl⟩ := List.exists_cons_of_ne_nil hne
        rfl
      rw [if_neg (by simp), hstart, components_append_slash, components_of_notMem hc,
        FileTree.walk_append, hm]
      simp [Except.bind, FileTree.walk, hd]
    · cases hl

theorem syncIndexFilename_eq (hbase : cfg.basePath.length + 18 < MAX_PATH_SIZE) :
    syncIndexFilename cfg =
      cutPath (cfg.basePath ++ ascii "/sync") ++ slash :: ascii "binlog.index" := by
  have hsync : (cutPath (cfg.basePath ++ ascii "/sync")).length ≤ cfg.basePath.length + 5 :=
    (List.length_take_le' _ _).trans (le_of_eq List.length_append)
  have hindex : (ascii "/" ++ ascii "binlog.index").length = 13 := by decide
  have hslash : ascii "/" ++ ascii "binlog.index" = slash :: ascii "binlog.index" := by decide
  rw [syncIndexFilename, List.append_assoc, ← hslash]
  exact List.take_of_length_le (by rw [List.length_append, hindex]; omega)

/-- Behind its directory the index file can be read. -/
theorem openRead_of_access {w : World} {c : Bytes}
    (hbase : cfg.basePath.length + 18 < MAX_PATH_SIZE)
    (hsync : w.tree.access w.cwd (cutPath (cfg.basePath ++ ascii "/sync")) = true)
    (hc : w.tree.content (lexical w.cwd (syncIndexFilename cfg)) = some c) :
    w.tree.openRead w.cwd (syncIndexFilename cfg) = .ok c := by
  obtain ⟨k, hk, -⟩ := FileTree.access_eq_true.mp hsync
  have hname : component (ascii "binlog.index") = .name (ascii "binlog.index") := by decide
  have hne : cutPath (cfg.basePath ++ ascii "/sync") ≠ [] := by
    simp [cutPath, MAX_PATH_SIZE, cfg.basePath_ne]
  have hplace : lexical w.cwd (syncIndexFilename cfg) = k ++ [ascii "binlog.index"] := by
    rw [syncIndexFilename_eq hbase, lexical_append_slash _ _ _ hne, ← FileTree.locate_lexical hk,
      components_of_notMem (by decide), hname]
    rfl
  rw [hplace] at hc
  have hd : w.tree.isDir k = true := by
    have hparent := w.tree.parent k _ (by rw [FileTree.content_eq_some.mp hc]; rfl)
    simp [FileTree.isDir, hparent]
  have hl := locate_below (c := ascii "binlog.index") hk hd (by decide)
  rw [hname, ← syncIndexFilename_eq hbase] at hl
  exact FileTree.openRead_of_content hl hc

/-- An index that can be read and is refused is a failure. -/
theorem readBinlogIndex_refused {f : InitFaults} {w u : World} {c : Bytes} {r : Errno}
    (hf : f.fopenIndex = false)
    (hread : w.tree.openRead w.cwd (syncIndexFilename cfg) = .ok c)
    (h : readBinlogIndex cfg f w = .done u r) : r ≠ 0 := by
  simp only [readBinlogIndex, hf, Bool.false_eq_true, if_false, World.touch_tree, World.touch_cwd,
    hread] at h
  split_ifs at h <;> cases h
  · exact errnoOr_ENOENT_ne_zero _
  · decide

/-- Where the index file is there and can be opened, a successful start has its stream. -/
theorem storageSyncInit_opens {f : InitFaults} {w : World} {c : Bytes}
    (hbase : cfg.basePath.length + 18 < MAX_PATH_SIZE) (hf : f.fopenIndex = false)
    (hc : w.tree.content (lexical w.cwd (syncIndexFilename cfg)) = some c)
    (h : (storageSyncInit cfg f w).2 = 0) :
    (storageSyncInit cfg f w).1.fpBinlog =
      some ⟨lexical w.cwd (syncIndexFilename cfg), true⟩ := by
  simp only [storageSyncInit] at h ⊢
  by_cases h1 : (ensureDir f.mkdirData f.errno w (cutPath (cfg.basePath ++ ascii "/data"))).2 = 0
  · obtain ⟨hk1, -⟩ := ensureDir_ok h1
    obtain ⟨-, hadd1⟩ := ensureDir_adds h1
    generalize (ensureDir f.mkdirData f.errno w (cutPath (cfg.basePath ++ ascii "/data"))) = r1 at *
    by_cases h2 : (ensureDir f.mkdirSync f.errno r1.1
        (cutPath (cfg.basePath ++ ascii "/sync"))).2 = 0
    · obtain ⟨hk2, hsync⟩ := ensureDir_ok h2
      obtain ⟨-, hadd2⟩ := ensureDir_adds h2
      generalize (ensureDir f.mkdirSync f.errno r1.1
        (cutPath (cfg.basePath ++ ascii "/sync"))) = r2 at *
      have hcwd := hk2.cwd.trans hk1.cwd
      have hnode := FileTree.content_eq_some.mp hc
      have hnode1 := (hadd1.kept _ (by rw [hnode]; rfl)).trans hnode
      have hnode2 := (hadd2.kept _ (by rw [hnode1]; rfl)).trans hnode1
      have hread : r2.1.tree.openRead r2.1.cwd (syncIndexFilename cfg) = .ok c :=
        openRead_of_access hbase hsync (by rw [hcwd]; exact FileTree.content_eq_some.mpr hnode2)
      simp only [h1, h2, ne_eq, not_true_eq_false, if_false] at h ⊢
      cases h3 : readBinlogIndex cfg f r2.1 with
      | done u r =>
        simp only [h3] at h
        exact absurd h (readBinlogIndex_refused hf hread h3)
      | goOn u =>
        simp only [h3] at h ⊢
        obtain ⟨l, t, size, ho, -, he⟩ := openBinlogStream_eq h
        have hl := FileTree.locate_lexical (FileTree.openWrite_ok ho).1
        rw [he, hl, BinlogStarts.readBinlogIndex_cwd h3, hcwd]
    · simp only [h1, h2, ne_eq, not_true_eq_false, not_false_eq_true, if_true, if_false] at h
  · simp only [h1, ne_eq, not_false_eq_true, if_true] at h

theorem inTurn_prepares {fs : List Call}
    (h : ∀ f ∈ fs, ∀ s, (f s).2 = 0 → Prepares cfg s.1 (f s).1.1) {s : World × SyncState}
    (h0 : (inTurn fs s).2 = 0) : Prepares cfg s.1 (inTurn fs s).1.1 := by
  induction fs generalizing s with
  | nil => exact .same rfl rfl rfl rfl
  | cons f fs ih =>
    obtain ⟨hf, he⟩ := inTurn_ok h0
    rw [he] at h0 ⊢
    exact (h f List.mem_cons_self s hf).trans
      (ih (fun g hg => h g (List.mem_cons_of_mem _ hg)) h0)

theorem clearing_prepares {f : Call} {s : World × SyncState} (h : Prepares cfg s.1 (f s).1.1)
    (h0 : (clearing f s).2 = 0) : Prepares cfg s.1 (clearing f s).1.1 := by
  rwa [(clearing_ok h0).2]

theorem reportersCall_prepares {f : MainFaults} {n : ℕ} {s : World × SyncState}
    (h : (reportersCall f n s).2 = 0) : Prepares cfg s.1 (reportersCall f n s).1.1 := by
  simp only [reportersCall, onWorld] at h ⊢
  split_ifs at h ⊢ with h0
  · exact absurd h h0
  · exact .same rfl rfl rfl rfl

/-- A start that comes to accept connections has opened its log and gone on from there. -/
theorem startMain_calls {f : MainFaults} {found : MainFinds} {tree : FileTree} {cwd : Loc}
    (habs : cfg.basePath.head? = some slash) (h : (startMain cfg f found tree cwd).2 = 0) :
    let v := (checkAndMkLogDir cfg f.mkdirLog f.errno (.initial tree cwd)).1
    (checkAndMkLogDir cfg f.mkdirLog f.errno (.initial tree cwd)).2 = 0 ∧
      (storageSyncInit cfg f.sync v).2 = 0 ∧
      Prepares cfg (storageSyncInit cfg f.sync v).1 (startMain cfg f found tree cwd).1.1 := by
  intro v
  rw [startMain, mainCalls] at h ⊢
  obtain ⟨hlog, he⟩ := inTurn_ok h
  rw [he] at h ⊢
  obtain ⟨-, he⟩ := inTurn_ok h
  rw [he] at h ⊢
  obtain ⟨hsync, he⟩ := inTurn_ok h
  obtain ⟨hsync, hs⟩ := clearing_ok hsync
  rw [he, hs] at h ⊢
  refine ⟨hlog, hsync, inTurn_prepares (fun g hg s h0 => ?_) h⟩
  simp only [List.mem_cons, List.not_mem_nil, or_false] at hg
  rcases hg with rfl | rfl | rfl | rfl | rfl | rfl
  · exact clearing_prepares (.same rfl rfl rfl rfl) h0
  · exact clearing_prepares (storageCheckAndMakeDataDirs_prepares habs _ _ _) h0
  · exact clearing_prepares (.same rfl rfl rfl rfl) h0
  · exact clearing_prepares (.same rfl rfl rfl rfl) h0
  · exact clearing_prepares (storageOpenStorageStat_prepares _ _ _ _) h0
  · exact reportersCall_prepares h0

/-- Where the file of the log was there and its index can be opened, a start that comes to
accept connections appends to it. -/
theorem startMain_serves {f : MainFaults} {found : MainFinds} {tree : FileTree} {cwd : Loc}
    {c : Bytes} (habs : cfg.basePath.head? = some slash)
    (hbase : cfg.basePath.length + 23 < MAX_PATH_SIZE) (hf : f.sync.fopenIndex = false)
    (hc : tree.content (logPlace cfg) = some c) (h : (startMain cfg f found tree cwd).2 = 0) :
    (startMain cfg f found tree cwd).1.1.fpBinlog = some ⟨logPlace cfg, true⟩ ∧
      (startMain cfg f found tree cwd).1.1.continueFlag = true ∧
      (startMain cfg f found tree cwd).1.1.killed = false ∧
      (startMain cfg f found tree cwd).1.1.tree.content (logPlace cfg) = some c := by
  obtain ⟨hlog, hsync, hprep⟩ := startMain_calls habs h
  obtain ⟨hk, -⟩ := ensureDir_ok hlog
  have hmade : Prepares cfg (.initial tree cwd)
      (checkAndMkLogDir cfg f.mkdirLog f.errno (.initial tree cwd)).1 := ensureDir_prepares _ _ _
  change Keeps _ (checkAndMkLogDir cfg f.mkdirLog f.errno (.initial tree cwd)).1 at hk
  generalize (checkAndMkLogDir cfg f.mkdirLog f.errno (.initial tree cwd)).1 = v at *
  have hsome : (tree.content (logPlace cfg)).isSome := by rw [hc]; rfl
  have hcv := (hmade.tree.kept _ (logPlace_not_written hbase) hsome).trans hc
  rw [← lexical_syncIndex habs v.cwd] at hcv
  have hopen := storageSyncInit_opens (by omega) hf hcv hsync
  rw [lexical_syncIndex habs] at hopen
  have hsync' := @storageSyncInit_continues cfg v habs f.sync
  refine ⟨hprep.stream.trans hopen, ?_, ?_, ?_⟩
  · rw [hprep.running, hsync'.running, hmade.running]
    rfl
  · rw [hprep.killed, hsync'.killed, hmade.killed]
    rfl
  · exact ((start_spares habs f found tree cwd).kept _ (logPlace_not_written hbase) hsome).trans hc

end Starts

end DemoStorage.DaemonStart
