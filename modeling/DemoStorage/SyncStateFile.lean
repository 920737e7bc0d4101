import DemoStorage.TrackerProtocol
import DemoStorage.FileEffects
import DemoStorage.ConditionedRuns

/-!
# The state of the synchronisation across restarts

The join time and the outcome of the negotiation with the trackers are written to a file of
the data directory whenever they change, and at each start of a process. The start makes the
directories of the store, tests whether the file is there and does nothing with the answer.
-/

namespace DemoStorage.SyncStateFile
open ByteStrings LexicalPaths PosixFileTree GeneratedNames DaemonState BinlogWriting FileEffects
open TrackerProtocol ConditionedRuns

def DATA_DIR_INITED_FILENAME : Bytes := ascii ".data_init_flag"
def DATA_DIR_COUNT_PER_PATH : ℕ := 16

/-- `g_storage_join_time`, `g_sync_old_done` and the source to sync from. -/
structure SyncState where
  joinTime : ℤ
  oldDone : Bool
  source : SyncSource
  deriving DecidableEq

/-- The globals as the process starts. -/
def SyncState.initial : SyncState := ⟨0, false, noSource⟩

/-- The items of the file in their order. -/
def syncItems (g : SyncState) : List (Bytes × Bytes) :=
  [(ascii "storage_join_time", decimal g.joinTime),
   (ascii "sync_old_done", decimal (if g.oldDone then 1 else 0)),
   (ascii "sync_src_server", g.source.ipAddr),
   (ascii "sync_until_timestamp", decimal g.source.untilTimestamp)]

def syncText (g : SyncState) : Bytes := (syncItems g).flatMap fun i => i.1 ++ 61 :: (i.2 ++ [10])

def syncIniFilename (cfg : Config) : Bytes := cutPath (dataPath cfg DATA_DIR_INITED_FILENAME)

structure SyncIniFaults where
  fopen : Bool := false
  fprintf : Bool := false
  /-- fewer bytes reach the disk, which `fclose` would tell -/
  flushed : Option ℕ := none
  errno : Errno := 0

def storageWriteToSyncIniFile (cfg : Config) (f : SyncIniFaults) (w : World) (g : SyncState) :
    World × Errno :=
  let full := syncIniFilename cfg
  if f.fopen then (w.touch full, errnoOr f.errno ENOENT)
  else match w.tree.openWrite w.cwd full true with
    | .error _ => (w.touch full, errnoOr f.errno ENOENT)
    | .ok (l, t) =>
      let text := match f.flushed with
        | none => syncText g
        | some k => (syncText g).take k
      ({ w.touch full with tree := t.setFile l text },
        if f.fprintf then errnoOr f.errno ENOENT else 0)

def mkdir (fault : Option Errno) (w : World) (p : Bytes) : World × Option Errno :=
  match fault with
  | some e => (w.touch p, some e)
  | none => match w.tree.mkdir w.cwd p with
    | .ok t => ({ w.touch p with tree := t }, none)
    | .error e => (w.touch p, some e)

def chdir (fails : Bool) (w : World) (p : Bytes) : World × Bool :=
  match w.locate p with
  | .ok l =>
    if fails = false ∧ w.tree.isDir l = true then ({ w.touch p with cwd := l }, true)
    else (w.touch p, false)
  | .error _ => (w.touch p, false)

def isDirectory (w : World) (p : Bytes) : Bool :=
  match w.locate p with
  | .ok l => w.tree.isDir l
  | .error _ => false

/-- `errno` behind a failed existence test. -/
def accessErrno (w : World) (p : Bytes) : Errno :=
  match w.locate p with
  | .ok _ => ENOENT
  | .error e => e

/-- Make a directory that may be there already; `tested` is the path the source looks at when
it cannot be made. -/
def makeDataDir (fault : Option Errno) (w : World) (p tested : Bytes) : World × Bool :=
  match mkdir fault w p with
  | (w, none) => (w, true)
  | (w, some _) =>
    let (w, exist) := fileExists w tested
    if exist then (w, true) else (w, accessErrno w tested = EEXIST ∧ isDirectory w p)

/-- Failures of the calls that make the directories, by their numbers. -/
structure DirFaults where
  dir : ℕ → Option Errno := fun _ => none
  enter : ℕ → Bool := fun _ => false
  sub : ℕ → ℕ → Option Errno := fun _ _ => none
  leave : ℕ → Bool := fun _ => false
  errno : Errno := 0

/-- The loop over the subdirectories of one directory. -/
def makeSubDirs (f : DirFaults) (i : ℕ) : List ℕ → World → World × Errno
  | [], w => (w, 0)
  | k :: ks, w =>
    -- what is tested is the outer directory's name
    let (w, made) := makeDataDir (f.sub i k) w (hexPair k) (hexPair i)
    if made then makeSubDirs f i ks w else (w, errnoOr f.errno ENOENT)

def makeDataDirs (f : DirFaults) : List ℕ → World → World × Errno
  | [], w => (w, 0)
  | i :: is, w =>
    let (w, made) := makeDataDir (f.dir i) w (hexPair i) (hexPair i)
    if made = false then (w, errnoOr f.errno ENOENT)
    else
      let (w, entered) := chdir (f.enter i) w (hexPair i)
      if entered = false then (w, errnoOr f.errno ENOENT)
      else
        let (w, r) := makeSubDirs f i (List.range DATA_DIR_COUNT_PER_PATH) w
        if r ≠ 0 then (w, r)
        else
          let (w, left) := chdir (f.leave i) w (ascii "..")
          if left = false then (w, errnoOr f.errno ENOENT) else makeDataDirs f is w

structure StartFaults where
  mkdir : Bool := false
  chdir : Bool := false
  mkdirAgain : Option Errno := none
  dirs : DirFaults := {}
  ini : SyncIniFaults := {}
  errno : Errno := 0

def storageCheckAndMakeDataDirs (cfg : Config) (f : StartFaults) (now : ℤ) (w : World)
    (g : SyncState) : World × SyncState × Errno :=
  let data := cutPath (cfg.basePath ++ ascii "/data")
  let (w, r) := ensureDir f.mkdir f.errno w data
  if r ≠ 0 then (w, g, r)
  else
    let (w, entered) := chdir f.chdir w data
    -- a directory that cannot be entered is made once more
    let (w, failed) := if entered then (w, none) else mkdir f.mkdirAgain w data
    if failed.isSome then (w, g, errnoOr f.errno ENOENT)
    else
      let (w, _) := fileExists w DATA_DIR_INITED_FILENAME
      let g := { g with joinTime := wrap32 now }
      let (w, r) := makeDataDirs f.dirs (List.range DATA_DIR_COUNT_PER_PATH) w
      if r ≠ 0 then (w, g, r)
      else
        let (w, r) := storageWriteToSyncIniFile cfg f.ini w g
        (w, g, r)

section Starts

/-- The directories of the store are there, the data directory at `data`, and the state file
can be opened from it. -/
structure IntactAt (cfg : Config) (w : World) (data ini : Loc) : Prop where
  path : w.locate (cutPath (cfg.basePath ++ ascii "/data")) = .ok data
  dir : w.tree.isDir data = true
  outer : ∀ i < DATA_DIR_COUNT_PER_PATH, w.tree.isDir (data ++ [hexPair i]) = true
  inner : ∀ i < DATA_DIR_COUNT_PER_PATH, ∀ k < DATA_DIR_COUNT_PER_PATH,
    w.tree.isDir (data ++ [hexPair i] ++ [hexPair k]) = true
  iniPath : w.tree.locate data (syncIniFilename cfg) = .ok ini
  file : w.tree.holds ini = true

theorem locate_hexPair {w : World} (hd : w.tree.isDir w.cwd = true) (n : ℕ) :
    w.locate (hexPair n) = .ok (w.cwd ++ [hexPair n]) := by
  have hne : hexPair n ≠ [] := by simp [hexPair]
  have hl := FileTree.locate_component hd hne (slash_notMem_hexPair n)
  rwa [component_hexPair] at hl

theorem isSome_of_isDir {t : FileTree} {l : Loc} (h : t.isDir l = true) : (t.node l).isSome := by
  simp only [FileTree.isDir, decide_eq_true_eq] at h
  rw [h]
  rfl

/-- Nothing happens to a directory that is there. -/
theorem makeDataDir_of_isDir {w : World} {i k : ℕ} (hd : w.tree.isDir w.cwd = true)
    (hk : w.tree.isDir (w.cwd ++ [hexPair k]) = true)
    (hi : w.tree.isDir (w.cwd ++ [hexPair i]) = true) :
    ∃ cs, makeDataDir none w (hexPair k) (hexPair i) = ({ w with calls := cs }, true) := by
  have hmk : w.tree.mkdir w.cwd (hexPair k) = .error EEXIST := by
    have hl := locate_hexPair hd k
    rw [World.locate] at hl
    simp [FileTree.mkdir, hl, isSome_of_isDir hk]
  have hacc : w.tree.access w.cwd (hexPair i) = true :=
    FileTree.access_eq_true.mpr ⟨_, locate_hexPair hd i, isSome_of_isDir hi⟩
  refine ⟨w.calls ++ [hexPair k] ++ [hexPair i], ?_⟩
  simp [makeDataDir, mkdir, hmk, fileExists, World.touch, hacc]

theorem makeSubDirs_of_isDir {i : ℕ} (ks : List ℕ) {w : World} (hd : w.tree.isDir w.cwd = true)
    (hi : w.tree.isDir (w.cwd ++ [hexPair i]) = true)
    (hks : ∀ k ∈ ks, w.tree.isDir (w.cwd ++ [hexPair k]) = true) :
    ∃ cs, makeSubDirs {} i ks w = ({ w with calls := cs }, 0) := by
  induction ks generalizing w with
  | nil => exact ⟨w.calls, rfl⟩
  | cons k ks ih =>
    obtain ⟨cs, hmake⟩ := makeDataDir_of_isDir hd (hks k List.mem_cons_self) hi
    obtain ⟨cs', hrest⟩ := ih (w := { w with calls := cs }) hd hi fun j hj =>
      hks j (List.mem_cons_of_mem _ hj)
    refine ⟨cs', ?_⟩
    rw [makeSubDirs, hmake]
    exact hrest

theorem chdir_hexPair {w : World} {i : ℕ} (hd : w.tree.isDir w.cwd = true)
    (hi : w.tree.isDir (w.cwd ++ [hexPair i]) = true) :
    ∃ cs, chdir false w (hexPair i) =
      ({ w with cwd := w.cwd ++ [hexPair i], calls := cs }, true) := by
  refine ⟨w.calls ++ [hexPair i], ?_⟩
  simp [chdir, locate_hexPair hd, hi, World.touch]

theorem chdir_up {w : World} {l : Loc} {c : Bytes} (hw : w.cwd = l ++ [c])
    (hd : w.tree.isDir w.cwd = true) (hl : w.tree.isDir l = true) :
    ∃ cs, chdir false w (ascii "..") = ({ w with cwd := l, calls := cs }, true) := by
  have hup : w.locate (ascii "..") = .ok l := by
    have h := FileTree.locate_component hd (c := ascii "..") (by decide) (by decide)
    have hc : component (ascii "..") = .up := by decide
    have hlast : w.cwd.dropLast = l := by rw [hw, List.dropLast_concat]
    rwa [hc, Component.apply, hlast] at h
  refine ⟨w.calls ++ [ascii ".."], ?_⟩
  simp [chdir, hup, hl, World.touch]

/-- The loop over directories that are all there ends where it began. -/
theorem makeDataDirs_of_isDir (is : List ℕ) {w : World} (hd : w.tree.isDir w.cwd = true)
    (hout : ∀ i ∈ is, w.tree.isDir (w.cwd ++ [hexPair i]) = true)
    (hin : ∀ i ∈ is, ∀ k < DATA_DIR_COUNT_PER_PATH,
      w.tree.isDir (w.cwd ++ [hexPair i] ++ [hexPair k]) = true)
    (his : ∀ i ∈ is, i < DATA_DIR_COUNT_PER_PATH) :
    ∃ cs, makeDataDirs {} is w = ({ w with calls := cs }, 0) := by
  induction is generalizing w with
  | nil => exact ⟨w.calls, rfl⟩
  | cons i is ih =>
    have hi := hout i List.mem_cons_self
    have hsub := hin i List.mem_cons_self
    obtain ⟨cs1, hmake⟩ := makeDataDir_of_isDir hd hi hi
    set w1 : World := { w with calls := cs1 } with hw1
    obtain ⟨cs2, henter⟩ := chdir_hexPair (w := w1) hd hi
    set w2 : World := { w1 with cwd := w1.cwd ++ [hexPair i], calls := cs2 } with hw2
    obtain ⟨cs3, hsubs⟩ := makeSubDirs_of_isDir (w := w2) (i := i)
      (List.range DATA_DIR_COUNT_PER_PATH) hi
      (hsub i (his i List.mem_cons_self)) fun k hk => hsub k (List.mem_range.mp hk)
    set w3 : World := { w2 with calls := cs3 } with hw3
    obtain ⟨cs4, hleave⟩ := chdir_up (w := w3) rfl hi hd
    obtain ⟨cs5, hrest⟩ := ih (w := { w with calls := cs4 }) hd
      (fun j hj => hout j (List.mem_cons_of_mem _ hj))
      (fun j hj => hin j (List.mem_cons_of_mem _ hj)) fun j hj => his j (List.mem_cons_of_mem _ hj)
    refine ⟨cs5, ?_⟩
    simp only [makeDataDirs, hmake, henter, hsubs, hleave]
    exact hrest

theorem storageWriteToSyncIniFile_ok {cfg : Config} {w : World} {l : Loc}
    (hl : w.locate (syncIniFilename cfg) = .ok l) (hh : w.tree.holds l = true) (g : SyncState) :
    storageWriteToSyncIniFile cfg {} w g =
      ({ w.touch (syncIniFilename cfg) with tree := w.tree.setFile l (syncText g) }, 0) := by
  have hopen : w.tree.openWrite w.cwd (syncIniFilename cfg) true = .ok (l, w.tree.setFile l []) :=
    FileTree.openWrite_truncate hl hh
  simp [storageWriteToSyncIniFile, hopen]

/-- A start in an intact directory writes the file anew and succeeds. -/
theorem storageCheckAndMakeDataDirs_of_intact {cfg : Config} {w : World} {data ini : Loc}
    (h : IntactAt cfg w data ini) (now : ℤ) (g : SyncState) :
    ∃ cs, storageCheckAndMakeDataDirs cfg {} now w g =
      ({ w with cwd := data, calls := cs
                tree := w.tree.setFile ini (syncText { g with joinTime := wrap32 now }) },
        { g with joinTime := wrap32 now }, 0) := by
  set p := cutPath (cfg.basePath ++ ascii "/data") with hp
  have hacc : w.tree.access w.cwd p = true :=
    FileTree.access_eq_true.mpr ⟨_, h.path, isSome_of_isDir h.dir⟩
  have hensure : ensureDir false 0 w p = (w.touch p, 0) := by simp [ensureDir, fileExists, hacc]
  have hpath : (w.touch p).locate p = .ok data := h.path
  have hchdir : chdir false (w.touch p) p = ({ (w.touch p).touch p with cwd := data }, true) := by
    simp [chdir, hpath, h.dir]
  set v : World := { (w.touch p).touch p with cwd := data } with hv
  obtain ⟨cs, hdirs⟩ := makeDataDirs_of_isDir (List.range DATA_DIR_COUNT_PER_PATH)
    (w := v.touch DATA_DIR_INITED_FILENAME) h.dir
    (fun i hi => h.outer i (List.mem_range.mp hi)) (fun i hi => h.inner i (List.mem_range.mp hi))
    fun i hi => List.mem_range.mp hi
  have hwrite := storageWriteToSyncIniFile_ok
    (w := { v.touch DATA_DIR_INITED_FILENAME with calls := cs }) h.iniPath h.file
    { g with joinTime := wrap32 now }
  refine ⟨cs ++ [syncIniFilename cfg], ?_⟩
  simp only [storageCheckAndMakeDataDirs, ← hp, hensure, hchdir, fileExists, hdirs, hwrite,
    ne_eq, not_true_eq_false, if_false, if_true]
  rfl

end Starts

section Runs
variable {cfg : Config}

/-- The disk and the globals of the latest process; the last field is a ghost, what the last
write of the file that returned 0 was given. -/
structure Machine where
  world : World
  sync : SyncState
  persisted : Option SyncState

inductive Event where
  /-- a process starts -/
  | start (cwd : Loc) (now : ℤ) (f : StartFaults)
  /-- a reporter has negotiated a source and writes the file -/
  | negotiated (source : SyncSource) (f : SyncIniFaults)
  /-- anything else that happens to the disk -/
  | work (tree : FileTree)

def record (persisted : Option SyncState) (g : SyncState) (r : Errno) : Option SyncState :=
  if r = 0 then some g else persisted

def step (cfg : Config) (m : Machine) : Event → Machine
  | .start cwd now f =>
    let r := storageCheckAndMakeDataDirs cfg f now (.initial m.world.tree cwd) .initial
    ⟨r.1, r.2.1, record m.persisted r.2.1 r.2.2⟩
  | .negotiated source f =>
    let g := { m.sync with oldDone := true, source := source }
    let r := storageWriteToSyncIniFile cfg f m.world g
    ⟨r.1, g, record m.persisted g r.2⟩
  | .work tree => { m with world := { m.world with tree := tree } }

/-- A start finds an intact data directory and no call fails. -/
def Intact (cfg : Config) (m : Machine) : Event → Prop
  | .start cwd _ f => f = {} ∧ ∃ data ini, IntactAt cfg (.initial m.world.tree cwd) data ini
  | _ => True

/-- Behind a start memory and file hold what was persisted last. -/
def Survives (cfg : Config) (m : Machine) (e : Event) : Prop :=
  match e with
  | .start _ _ _ => ∀ g, m.persisted = some g → (step cfg m e).sync = g ∧
      (step cfg m e).world.tree.openRead (step cfg m e).world.cwd (syncIniFilename cfg) =
        .ok (syncText g)
  | _ => True

/-- What was persisted last is what a first start at this moment would persist. -/
def Fresh (m : Machine) : Event → Prop
  | .start _ now _ => ∀ g, m.persisted = some g → g = { SyncState.initial with joinTime := wrap32 now }
  | _ => True

/-- A start knows nothing of the state before it: it persists its own. -/
theorem step_start {m : Machine} {cwd data ini : Loc}
    (h : IntactAt cfg (.initial m.world.tree cwd) data ini) (now : ℤ) :
    let g : SyncState := { SyncState.initial with joinTime := wrap32 now }
    ∃ cs, step cfg m (.start cwd now {}) =
      ⟨{ World.initial m.world.tree cwd with
          cwd := data, calls := cs, tree := m.world.tree.setFile ini (syncText g) }, g, some g⟩ := by
  obtain ⟨cs, hs⟩ := storageCheckAndMakeDataDirs_of_intact h now .initial
  refine ⟨cs, ?_⟩
  simp only [step, hs]
  rfl

theorem survives_start_iff {m : Machine} {e : Event} (h : Intact cfg m e) :
    Survives cfg m e ↔ Fresh m e := by
  cases e with
  | start cwd now f =>
    obtain ⟨rfl, data, ini, hi⟩ := h
    obtain ⟨cs, hs⟩ := step_start hi now
    constructor
    · intro hsurvives g hg
      have hsync := (hsurvives g hg).1
      rw [hs] at hsync
      exact hsync.symm
    · intro hfresh g hg
      obtain rfl := hfresh g hg
      rw [hs]
      refine ⟨rfl, FileTree.openRead_of_content (l := ini) ?_ ?_⟩
      · exact (FileTree.locate_ok_congr (fun l => FileTree.isDir_setFile _ _ _ _) _ _ _).mpr
          hi.iniPath
      · exact (FileTree.content_setFile hi.file _ ini).trans (if_pos rfl)
  | negotiated source f => exact Iff.rfl
  | work tree => exact Iff.rfl

/-- The state survives the starts of a run exactly when none of them finds a state persisted
that it would not have written itself. -/
theorem survives_iff_fresh {m : Machine} {es : List Event} (h : Meets (step cfg) (Intact cfg) m es) :
    Meets (step cfg) (Survives cfg) m es ↔ Meets (step cfg) Fresh m es :=
  h.congr fun _ _ => survives_start_iff

end Runs

section Example

/-- The components of a place pass the tests of their depths. -/
def inLayers : List (Bytes → Bool) → Loc → Bool
  | _, [] => true
  | [], _ :: _ => false
  | test :: tests, c :: l => test c && inLayers tests l

theorem inLayers_of_concat {tests : List (Bytes → Bool)} {l : Loc} {c : Bytes}
    (h : inLayers tests (l ++ [c]) = true) : inLayers tests l = true := by
  induction l generalizing tests with
  | nil => cases tests <;> rfl
  | cons d l ih =>
    cases tests with
    | nil => cases h
    | cons test tests =>
      simp only [List.cons_append, inLayers, Bool.and_eq_true] at h ⊢
      exact ⟨h.1, ih h.2⟩

/-- The tree of the directories with such places. -/
def layeredTree (tests : List (Bytes → Bool)) : FileTree where
  node l := if inLayers tests l then some .dir else none
  root := by cases tests <;> rfl
  parent := by
    intro l c h
    by_cases hd : inLayers tests (l ++ [c]) = true
    · rw [if_pos (inLayers_of_concat hd)]
    · rw [if_neg hd] at h
      cases h

/-- A store with all its directories: below `/b/data` every name of two bytes, two deep. -/
def intactTree : FileTree :=
  layeredTree [(· = ascii "b"), (· = ascii "data"), (·.length = 2), (·.length = 2)]

def intactData : Loc := [ascii "b", ascii "data"]

theorem intactTree_intactAt {t : FileTree} (ht : ∀ l, t.isDir l = intactTree.isDir l) :
    IntactAt sampleConfig (.initial t []) intactData (intactData ++ [DATA_DIR_INITED_FILENAME]) := by
  have hhex (n : ℕ) : (hexPair n).length = 2 := rfl
  have hl (cwd : Loc) (p : Bytes) (l : Loc) :
      t.locate cwd p = .ok l ↔ intactTree.locate cwd p = .ok l := FileTree.locate_ok_congr ht _ _ _
  constructor
  · exact (hl [] _ _).mpr (by decide)
  · exact (ht _).trans (by decide)
  · intro i _
    refine (ht _).trans ?_
    simp [FileTree.isDir, intactTree, layeredTree, intactData, inLayers, hhex]
  · intro i _ k _
    refine (ht _).trans ?_
    simp [FileTree.isDir, intactTree, layeredTree, intactData, inLayers, hhex]
  · exact (hl _ _ _).mpr (by decide)
  · have hf : intactTree.holds (intactData ++ [DATA_DIR_INITED_FILENAME]) = true := by decide
    simpa only [FileTree.holds, World.initial, ht] using hf

/-- A first start, a negotiation and another start. -/
def negotiatedAndRestarted : List Event :=
  [.start [] 1 {}, .negotiated ⟨ascii "10.0.0.1", 5⟩ {}, .start [] 2 {}]

def intactMachine : Machine := ⟨.initial intactTree [], .initial, none⟩

theorem negotiatedAndRestarted_not_survives :
    Meets (step sampleConfig) (Intact sampleConfig) intactMachine negotiatedAndRestarted ∧
      ¬ Meets (step sampleConfig) (Survives sampleConfig) intactMachine negotiatedAndRestarted := by
  have h1 := intactTree_intactAt (t := intactTree) fun _ => rfl
  obtain ⟨cs, hstart⟩ := step_start (m := intactMachine) h1 1
  set m1 := step sampleConfig intactMachine (.start [] 1 {}) with hm1
  have hsync : m1.sync = ⟨1, false, noSource⟩ := by
    rw [hstart]
    rfl
  have hcwd : m1.world.cwd = intactData := by rw [hstart]
  have hfile : m1.world.tree = intactTree.setFile (intactData ++ [DATA_DIR_INITED_FILENAME])
      (syncText ⟨1, false, noSource⟩) := by
    rw [hstart]
    rfl
  have htree (l : Loc) : m1.world.tree.isDir l = intactTree.isDir l := by
    rw [hfile, FileTree.isDir_setFile]
  have h2 := intactTree_intactAt htree
  have hpath : m1.world.locate (syncIniFilename sampleConfig) =
      .ok (intactData ++ [DATA_DIR_INITED_FILENAME]) := by
    rw [World.locate, hcwd]
    exact h2.iniPath
  have hwrite := storageWriteToSyncIniFile_ok hpath h2.file ⟨1, true, ⟨ascii "10.0.0.1", 5⟩⟩
  set m2 := step sampleConfig m1 (.negotiated ⟨ascii "10.0.0.1", 5⟩ {}) with hm2
  have hpersisted : m2.persisted = some ⟨1, true, ⟨ascii "10.0.0.1", 5⟩⟩ := by
    simp only [hm2, step, hsync, hwrite]
    rfl
  have h3 : IntactAt sampleConfig (.initial m2.world.tree []) intactData
      (intactData ++ [DATA_DIR_INITED_FILENAME]) := by
    apply intactTree_intactAt
    intro l
    simp only [hm2, step, hsync, hwrite]
    exact (FileTree.isDir_setFile _ _ _ _).trans (htree l)
  have hintact : Intact sampleConfig m2 (.start [] 2 {}) := ⟨rfl, _, _, h3⟩
  constructor
  · exact ⟨⟨rfl, _, _, h1⟩, trivial, hintact, trivial⟩
  · rintro ⟨-, -, hsurvives, -⟩
    have hfresh := (survives_start_iff hintact).mp hsurvives _ hpersisted
    exact absurd (congrArg SyncState.oldDone hfresh) (by decide)

/-- What a start persisted survives a start in the same second. -/
theorem sameSecond_survives : Meets (step sampleConfig) (Survives sampleConfig)
    { intactMachine with persisted := some ⟨1, false, noSource⟩ } [.start [] 1 {}] := by
  have hintact : IntactAt sampleConfig (.initial intactTree []) intactData
      (intactData ++ [DATA_DIR_INITED_FILENAME]) := intactTree_intactAt fun _ => rfl
  have hm : Meets (step sampleConfig) (Intact sampleConfig)
      { intactMachine with persisted := some ⟨1, false, noSource⟩ } [.start [] 1 {}] :=
    ⟨⟨rfl, _, _, hintact⟩, trivial⟩
  refine (survives_iff_fresh hm).mpr ⟨?_, trivial⟩
  intro g hg
  obtain rfl := Option.some.inj hg
  rfl

end Example

end DemoStorage.SyncStateFile
