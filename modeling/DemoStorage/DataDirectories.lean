import DemoStorage.SyncStateFile
import DemoStorage.BinlogRestart
import DemoStorage.Base64Encoding

/-!
# The directories a start makes

A start makes sixteen directories of sixteen each and goes through them by changing the working
directory. A call that fails is excused when something is there already, but for the inner
directories what is looked at is the name of the outer one, which is the first to be there.
-/

namespace DemoStorage.DataDirectories
open ByteStrings LexicalPaths PosixFileTree GeneratedNames DaemonState BinlogWriting
open BinlogRestart SyncStateFile

section Adding

/-- A tree with nothing but directories added, at certain places where nothing was. -/
structure Adds (t t' : FileTree) (new : Loc → Prop) : Prop where
  kept : ∀ l, (t.node l).isSome → t'.node l = t.node l
  made : ∀ l, new l → t.node l = none → t'.node l = some .dir
  rest : ∀ l, ¬ new l → t'.node l = t.node l

variable {t t' t'' : FileTree} {new new' : Loc → Prop}

theorem Adds.refl (h : ∀ l, new l → (t.node l).isSome) : Adds t t new :=
  ⟨fun _ _ => rfl, fun l hl hn => by simpa [hn] using h l hl, fun _ _ => rfl⟩

theorem Adds.trans (h : Adds t t' new) (h' : Adds t' t'' new') :
    Adds t t'' fun l => new l ∨ new' l := by
  constructor
  · intro l hl
    have hk := h.kept l hl
    rw [h'.kept l (by rwa [hk]), hk]
  · intro l hl hn
    by_cases hnew : new l
    · have hm := h.made l hnew hn
      rw [h'.kept l (by simp [hm]), hm]
    · rw [h'.made l (hl.resolve_left hnew) (by rw [h.rest l hnew, hn])]
  · intro l hl
    obtain ⟨h1, h2⟩ := not_or.mp hl
    rw [h'.rest l h2, h.rest l h1]

theorem Adds.congr (h : Adds t t' new) (hn : ∀ l, new' l ↔ new l) : Adds t t' new' :=
  ⟨h.kept, fun l hl => h.made l ((hn l).mp hl), fun l hl => h.rest l fun hl' => hl ((hn l).mpr hl')⟩

theorem Adds.isDir (h : Adds t t' new) {l : Loc} (hl : t.isDir l = true) : t'.isDir l = true := by
  simp only [FileTree.isDir, decide_eq_true_eq] at hl ⊢
  rw [h.kept l (by simp [hl]), hl]

/-- The directories are the old ones and the new ones. -/
theorem Adds.isDir_iff (h : Adds t t' new) (l : Loc) :
    t'.isDir l = true ↔ t.isDir l = true ∨ (new l ∧ t.node l = none) := by
  constructor
  · intro hl
    by_cases hnew : new l ∧ t.node l = none
    · exact .inr hnew
    · left
      simp only [FileTree.isDir, decide_eq_true_eq] at hl ⊢
      by_cases hn : t.node l = none
      · rw [h.rest l fun hl' => hnew ⟨hl', hn⟩] at hl
        exact hl
      · rwa [h.kept l (Option.isSome_iff_ne_none.mpr hn)] at hl
  · rintro (hl | ⟨hnew, hn⟩)
    · exact h.isDir hl
    · simp [FileTree.isDir, h.made l hnew hn]

theorem adds_makeDir {l : Loc} (hd : t.isDir l.dropLast = true) (hn : t.node l = none) :
    Adds t (t.makeDir l) fun k => k = l := by
  have hnode := FileTree.node_makeDir hd hn
  constructor
  · intro k hk
    rw [hnode, if_neg]
    rintro rfl
    simp [hn] at hk
  · rintro k rfl -
    rw [hnode, if_pos rfl]
  · intro k hk
    rw [hnode, if_neg hk]

end Adding

theorem hexPair_inj {m n : ℕ} (hm : m < 256) (hn : n < 256) : hexPair m = hexPair n ↔ m = n := by
  have hdigit : ∀ a b : Fin 16, upperDigitChar a = upperDigitChar b → a = b := by decide
  refine ⟨fun h => ?_, congrArg hexPair⟩
  simp only [hexPair, List.cons.injEq, and_true] at h
  have hhigh := hdigit ⟨m / 16 % 16, by omega⟩ ⟨n / 16 % 16, by omega⟩ h.1
  have hlow := hdigit ⟨m % 16, by omega⟩ ⟨n % 16, by omega⟩ h.2
  simp only [Fin.mk.injEq] at hhigh hlow
  omega

/-- Two directories of one place are told apart by their numbers. -/
theorem hexPair_append_inj {data : Loc} {m n : ℕ} (hm : m < 256) (hn : n < 256)
    (h : data ++ [hexPair m] = data ++ [hexPair n]) : m = n :=
  (hexPair_inj hm hn).mp (List.singleton_inj.mp (List.append_cancel_left h))

/-- A place is not one that lies below a sibling. -/
theorem below_ne (l : Loc) (a b c : Bytes) : l ++ [a] ++ [b] ≠ l ++ [c] := by
  intro h
  have hlen := congrArg List.length h
  simp at hlen

section Calls
variable {w : World}

theorem makeDataDir_of_failed {fault : Option Errno} {p : Bytes} {e : Errno}
    (h : mkdir fault w p = (w.touch p, some e)) (tested : Bytes) :
    (makeDataDir fault w p tested).1 = (w.touch p).touch tested := by
  by_cases ha : w.tree.access w.cwd tested = true <;> simp [makeDataDir, h, fileExists, ha]

/-- A directory that is made in the working directory is the only thing that changes. -/
theorem makeDataDir_adds (hd : w.tree.isDir w.cwd = true) (fault : Option Errno) (k : ℕ)
    (tested : Bytes) : (makeDataDir fault w (hexPair k) tested).1.cwd = w.cwd ∧
      Adds w.tree (makeDataDir fault w (hexPair k) tested).1.tree
        fun l => fault = none ∧ l = w.cwd ++ [hexPair k] := by
  have hloc := locate_hexPair hd k
  rw [World.locate] at hloc
  cases fault with
  | some e =>
    rw [makeDataDir_of_failed rfl]
    exact ⟨rfl, .refl fun l hl => absurd hl.1 (by simp)⟩
  | none =>
    by_cases hn : (w.tree.node (w.cwd ++ [hexPair k])).isSome
    · have hmk : w.tree.mkdir w.cwd (hexPair k) = .error EEXIST := by
        simp only [FileTree.mkdir, hloc, hn, if_true]
      have hfailed : mkdir none w (hexPair k) = (w.touch (hexPair k), some EEXIST) := by
        simp only [mkdir, hmk]
      rw [makeDataDir_of_failed hfailed]
      exact ⟨rfl, .refl fun l hl => hl.2 ▸ hn⟩
    · have hmk : w.tree.mkdir w.cwd (hexPair k) =
          .ok (w.tree.makeDir (w.cwd ++ [hexPair k])) := by
        simp only [FileTree.mkdir, hloc, hn]
        rfl
      have hadd := adds_makeDir (t := w.tree) (l := w.cwd ++ [hexPair k]) (by simpa using hd)
        (by simpa using hn)
      simp only [makeDataDir, mkdir, hmk]
      exact ⟨rfl, hadd.congr fun l => by simp⟩

theorem chdir_ok {fails : Bool} {p : Bytes} (h : (chdir fails w p).2 = true) :
    ∃ l, w.locate p = .ok l ∧ w.tree.isDir l = true ∧
      (chdir fails w p).1 = { w.touch p with cwd := l } := by
  unfold chdir at h ⊢
  split at h
  · rename_i l hl
    split_ifs at h with hc
    rw [hl]
    exact ⟨l, rfl, hc.2, by simp only [hc, and_self, if_true]⟩
  · cases h

theorem chdir_failed {fails : Bool} {p : Bytes} (h : (chdir fails w p).2 = false) :
    (chdir fails w p).1 = w.touch p := by
  unfold chdir at h ⊢
  split at h
  · rename_i l hl
    split_ifs at h with hc
    exact congrArg Prod.fst (if_neg hc)
  · rfl

/-- The loop over the subdirectories, whether or not their calls fail. -/
theorem makeSubDirs_adds {f : DirFaults} {i : ℕ} {ks : List ℕ} (hd : w.tree.isDir w.cwd = true)
    (h : (makeSubDirs f i ks w).2 = 0) : (makeSubDirs f i ks w).1.cwd = w.cwd ∧
      Adds w.tree (makeSubDirs f i ks w).1.tree
        fun l => ∃ k ∈ ks, f.sub i k = none ∧ l = w.cwd ++ [hexPair k] := by
  induction ks generalizing w with
  | nil => exact ⟨rfl, .refl fun l hl => by simp at hl⟩
  | cons k ks ih =>
    obtain ⟨hcwd, hadd⟩ := makeDataDir_adds hd (f.sub i k) k (hexPair i)
    simp only [makeSubDirs] at h ⊢
    split_ifs at h ⊢ with hmade
    · obtain ⟨hcwd', hadd'⟩ := ih (hcwd ▸ hadd.isDir hd) h
      refine ⟨hcwd'.trans hcwd, (hadd.trans hadd').congr fun l => ?_⟩
      rw [hcwd]
      simp
    · exact absurd h (errnoOr_ENOENT_ne_zero _)

/-- The world behind each call of one turn of the outer loop. -/
def turnMade (f : DirFaults) (i : ℕ) (w : World) : World :=
  (makeDataDir (f.dir i) w (hexPair i) (hexPair i)).1

def turnEntered (f : DirFaults) (i : ℕ) (w : World) : World × Bool :=
  chdir (f.enter i) (turnMade f i w) (hexPair i)

def turnFilled (f : DirFaults) (i : ℕ) (w : World) : World × Errno :=
  makeSubDirs f i (List.range DATA_DIR_COUNT_PER_PATH) (turnEntered f i w).1

def turnLeft (f : DirFaults) (i : ℕ) (w : World) : World × Bool :=
  chdir (f.leave i) (turnFilled f i w).1 (ascii "..")

theorem makeDataDirs_eq (f : DirFaults) (i : ℕ) (is : List ℕ) (w : World) :
    makeDataDirs f (i :: is) w =
      if (makeDataDir (f.dir i) w (hexPair i) (hexPair i)).2 = false then
        (turnMade f i w, errnoOr f.errno ENOENT)
      else if (turnEntered f i w).2 = false then ((turnEntered f i w).1, errnoOr f.errno ENOENT)
      else if (turnFilled f i w).2 ≠ 0 then turnFilled f i w
      else if (turnLeft f i w).2 = false then ((turnLeft f i w).1, errnoOr f.errno ENOENT)
      else makeDataDirs f is (turnLeft f i w).1 := by
  rw [makeDataDirs]
  rfl

/-- A turn of the outer loop that the loop goes on behind. -/
theorem makeDataDirs_cons {f : DirFaults} {i : ℕ} {is : List ℕ}
    (h : (makeDataDirs f (i :: is) w).2 = 0) :
    (turnEntered f i w).2 = true ∧ (turnFilled f i w).2 = 0 ∧ (turnLeft f i w).2 = true ∧
      makeDataDirs f (i :: is) w = makeDataDirs f is (turnLeft f i w).1 := by
  have hne : errnoOr f.errno ENOENT ≠ 0 := errnoOr_ENOENT_ne_zero _
  rw [makeDataDirs_eq] at h ⊢
  split_ifs at h ⊢ with h1 h2 h3 h4
  · exact absurd h hne
  · exact absurd h hne
  · exact absurd h h3
  · exact absurd h hne
  · exact ⟨by simpa using h2, not_not.mp h3, by simpa using h4, rfl⟩

theorem locate_up {l : Loc} {c : Bytes} (hw : w.cwd = l ++ [c])
    (hd : w.tree.isDir w.cwd = true) : w.locate (ascii "..") = .ok l := by
  have hup := FileTree.locate_component hd (c := ascii "..") (by decide) (by decide)
  have hc : component (ascii "..") = .up := by decide
  have hlast : w.cwd.dropLast = l := by rw [hw, List.dropLast_concat]
  rwa [hc, Component.apply, hlast] at hup

/-- The directories of one turn. -/
def MadeInTurn (f : DirFaults) (data : Loc) (i : ℕ) (l : Loc) : Prop :=
  (f.dir i = none ∧ l = data ++ [hexPair i]) ∨
    ∃ k ∈ List.range DATA_DIR_COUNT_PER_PATH, f.sub i k = none ∧
      l = data ++ [hexPair i] ++ [hexPair k]

/-- A turn begins with the attempt to make its directory. -/
theorem turnMade_adds (f : DirFaults) (i : ℕ) (hd : w.tree.isDir w.cwd = true) :
    (turnMade f i w).locate (hexPair i) = .ok (w.cwd ++ [hexPair i]) ∧
      Adds w.tree (turnMade f i w).tree fun l => f.dir i = none ∧ l = w.cwd ++ [hexPair i] := by
  obtain ⟨hcwd, hadd⟩ := makeDataDir_adds hd (f.dir i) i (hexPair i)
  rw [turnMade]
  refine ⟨?_, hadd⟩
  rw [locate_hexPair (hcwd ▸ hadd.isDir hd), hcwd]

/-- A turn ends where it began. -/
theorem turn_adds {f : DirFaults} {i : ℕ} (hd : w.tree.isDir w.cwd = true)
    (henter : (turnEntered f i w).2 = true) (hfilled : (turnFilled f i w).2 = 0)
    (hleft : (turnLeft f i w).2 = true) : (turnLeft f i w).1.cwd = w.cwd ∧
      Adds w.tree (turnLeft f i w).1.tree (MadeInTurn f w.cwd i) := by
  -- the directory is made and entered
  obtain ⟨hloc1, hadd1⟩ := turnMade_adds f i hd
  obtain ⟨l, hl, hdir, hw2⟩ := chdir_ok henter
  rw [hloc1] at hl
  obtain rfl := Except.ok.inj hl
  have hcwd2 : (turnEntered f i w).1.cwd = w.cwd ++ [hexPair i] := by rw [turnEntered, hw2]
  have htree2 : (turnEntered f i w).1.tree = (turnMade f i w).tree := by
    rw [turnEntered, hw2]
    rfl
  have hd2 : (turnEntered f i w).1.tree.isDir (turnEntered f i w).1.cwd = true := by
    rw [hcwd2, htree2]
    exact hdir
  -- it is filled and left
  obtain ⟨hcwd3, hadd3⟩ := makeSubDirs_adds hd2 hfilled
  change (turnFilled f i w).1.cwd = _ at hcwd3
  have hd3 : (turnFilled f i w).1.tree.isDir (turnFilled f i w).1.cwd = true := by
    rw [hcwd3]
    exact hadd3.isDir hd2
  obtain ⟨m, hm, -, hw4⟩ := chdir_ok hleft
  rw [locate_up (hcwd3.trans hcwd2) hd3] at hm
  obtain rfl := Except.ok.inj hm
  have hcwd4 : (turnLeft f i w).1.cwd = w.cwd := by rw [turnLeft, hw4]
  have htree4 : (turnLeft f i w).1.tree = (turnFilled f i w).1.tree := by
    rw [turnLeft, hw4]
    rfl
  rw [htree2, hcwd2] at hadd3
  rw [hcwd4, htree4]
  exact ⟨rfl, hadd1.trans hadd3⟩

/-- The loop over the outer directories adds the directories of its turns. -/
theorem makeDataDirs_adds {f : DirFaults} {is : List ℕ} (hd : w.tree.isDir w.cwd = true)
    (h : (makeDataDirs f is w).2 = 0) : (makeDataDirs f is w).1.cwd = w.cwd ∧
      Adds w.tree (makeDataDirs f is w).1.tree fun l => ∃ i ∈ is, MadeInTurn f w.cwd i l := by
  induction is generalizing w with
  | nil => exact ⟨rfl, .refl fun l hl => by simp at hl⟩
  | cons i is ih =>
    obtain ⟨henter, hfilled, hleft, hrest⟩ := makeDataDirs_cons h
    rw [hrest] at h ⊢
    obtain ⟨hcwd, hadd⟩ := turn_adds hd henter hfilled hleft
    obtain ⟨hcwd', hadd'⟩ := ih (hcwd ▸ hadd.isDir hd) h
    rw [hcwd] at hadd'
    refine ⟨hcwd'.trans hcwd, (hadd.trans hadd').congr fun l => ?_⟩
    simp only [List.mem_cons, exists_eq_or_imp]

end Calls

section Starts
variable {cfg : Config} {f : StartFaults} {now : ℤ} {w : World} {g : SyncState}

theorem ensureDir_adds {fails : Bool} {errno : Errno} {p : Bytes}
    (h : (ensureDir fails errno w p).2 = 0) :
    (ensureDir fails errno w p).1.tree.access w.cwd p = true ∧
      Adds w.tree (ensureDir fails errno w p).1.tree fun l => l = lexical w.cwd p := by
  obtain ⟨hkeeps, hacc⟩ := ensureDir_ok h
  rw [hkeeps.cwd] at hacc
  refine ⟨hacc, ?_⟩
  cases hx : w.tree.access w.cwd p with
  | true =>
    rw [ensureDir_of_access hx]
    obtain ⟨l, hl, hn⟩ := FileTree.access_eq_true.mp hx
    exact .refl fun k hk => by rwa [hk, ← FileTree.locate_lexical hl]
  | false =>
    cases fails with
    | true =>
      simp only [ensureDir, fileExists, hx, Bool.false_eq_true, if_false, if_true] at h
      exact absurd h (errnoOr_ENOENT_ne_zero _)
    | false =>
      simp only [ensureDir, fileExists, hx, Bool.false_eq_true, if_false, World.touch_tree,
        World.touch_cwd] at h ⊢
      cases hm : w.tree.mkdir w.cwd p with
      | error e => simp [hm, errnoOr_ENOENT_ne_zero] at h
      | ok t =>
        obtain ⟨l, hl, hd, hn, rfl⟩ := FileTree.mkdir_ok hm
        obtain rfl := FileTree.locate_lexical hl
        exact adds_makeDir hd hn

/-- What exists cannot be made. -/
theorem mkdir_of_access (fault : Option Errno) {p : Bytes} (h : w.tree.access w.cwd p = true) :
    ∃ e, mkdir fault w p = (w.touch p, some e) := by
  cases fault with
  | some e => exact ⟨e, rfl⟩
  | none =>
    obtain ⟨l, hl, hn⟩ := FileTree.access_eq_true.mp h
    exact ⟨EEXIST, by simp only [mkdir, FileTree.mkdir, hl, hn, if_true]⟩

/-- The path of the data directory as the start prints it. -/
def dataText (cfg : Config) : Bytes := cutPath (cfg.basePath ++ ascii "/data")

def startEnsured (cfg : Config) (f : StartFaults) (w : World) : World :=
  (ensureDir f.mkdir f.errno w (dataText cfg)).1

/-- The world in which the loops begin: the data directory is entered and the flag looked at. -/
def startEntered (cfg : Config) (f : StartFaults) (w : World) : World :=
  (chdir f.chdir (startEnsured cfg f w) (dataText cfg)).1.touch DATA_DIR_INITED_FILENAME

def startFilled (cfg : Config) (f : StartFaults) (w : World) : World × Errno :=
  makeDataDirs f.dirs (List.range DATA_DIR_COUNT_PER_PATH) (startEntered cfg f w)

/-- What a start does behind the attempt to enter the data directory. -/
def startRest (cfg : Config) (f : StartFaults) (now : ℤ) (g : SyncState) :
    World × Bool → World × SyncState × Errno
  | (w, entered) =>
    let (w, failed) := if entered then (w, none) else mkdir f.mkdirAgain w (dataText cfg)
    if failed.isSome then (w, g, errnoOr f.errno ENOENT)
    else
      let g := { g with joinTime := wrap32 now }
      let r := makeDataDirs f.dirs (List.range DATA_DIR_COUNT_PER_PATH)
        (w.touch DATA_DIR_INITED_FILENAME)
      if r.2 ≠ 0 then (r.1, g, r.2)
      else
        let r := storageWriteToSyncIniFile cfg f.ini r.1 g
        (r.1, g, r.2)

theorem start_eq : storageCheckAndMakeDataDirs cfg f now w g =
    if (ensureDir f.mkdir f.errno w (dataText cfg)).2 ≠ 0 then
      (startEnsured cfg f w, g, (ensureDir f.mkdir f.errno w (dataText cfg)).2)
    else startRest cfg f now g (chdir f.chdir (startEnsured cfg f w) (dataText cfg)) := by
  rw [storageCheckAndMakeDataDirs]
  rfl

theorem start_entered (hensure : (ensureDir f.mkdir f.errno w (dataText cfg)).2 = 0)
    (henter : (chdir f.chdir (startEnsured cfg f w) (dataText cfg)).2 = true) :
    storageCheckAndMakeDataDirs cfg f now w g =
      let g := { g with joinTime := wrap32 now }
      if (startFilled cfg f w).2 ≠ 0 then ((startFilled cfg f w).1, g, (startFilled cfg f w).2)
      else
        let r := storageWriteToSyncIniFile cfg f.ini (startFilled cfg f w).1 g
        (r.1, g, r.2) := by
  have hpair : chdir f.chdir (startEnsured cfg f w) (dataText cfg) =
      ((chdir f.chdir (startEnsured cfg f w) (dataText cfg)).1, true) := Prod.ext rfl henter
  rw [start_eq, if_neg (not_not.mpr hensure), hpair]
  rfl

/-- What cannot be entered cannot be made again, because it is there. -/
theorem start_notEntered (hensure : (ensureDir f.mkdir f.errno w (dataText cfg)).2 = 0)
    (henter : (chdir f.chdir (startEnsured cfg f w) (dataText cfg)).2 = false) :
    (storageCheckAndMakeDataDirs cfg f now w g).2.2 = errnoOr f.errno ENOENT := by
  have hacc : ((startEnsured cfg f w).touch (dataText cfg)).tree.access
      ((startEnsured cfg f w).touch (dataText cfg)).cwd (dataText cfg) = true := by
    rw [World.touch_tree, World.touch_cwd, startEnsured, (ensureDir_ok hensure).1.cwd]
    exact (ensureDir_adds hensure).1
  obtain ⟨e, hmk⟩ := mkdir_of_access f.mkdirAgain hacc
  have hpair : chdir f.chdir (startEnsured cfg f w) (dataText cfg) =
      ((startEnsured cfg f w).touch (dataText cfg), false) := Prod.ext (chdir_failed henter) henter
  rw [start_eq, if_neg (not_not.mpr hensure), hpair, startRest]
  simp only [Bool.false_eq_true, if_false, hmk, Option.isSome_some, if_true]

/-- A start that returned 0 went through all its stages. -/
theorem start_stages (h : (storageCheckAndMakeDataDirs cfg f now w g).2.2 = 0) :
    (ensureDir f.mkdir f.errno w (dataText cfg)).2 = 0 ∧
      (chdir f.chdir (startEnsured cfg f w) (dataText cfg)).2 = true ∧
      (startFilled cfg f w).2 = 0 ∧
      (storageCheckAndMakeDataDirs cfg f now w g).1 =
        (storageWriteToSyncIniFile cfg f.ini (startFilled cfg f w).1
          { g with joinTime := wrap32 now }).1 := by
  by_cases hensure : (ensureDir f.mkdir f.errno w (dataText cfg)).2 = 0
  · cases henter : (chdir f.chdir (startEnsured cfg f w) (dataText cfg)).2 with
    | false =>
      rw [start_notEntered hensure henter] at h
      exact absurd h (errnoOr_ENOENT_ne_zero _)
    | true =>
      rw [start_entered hensure henter] at h ⊢
      by_cases hfilled : (startFilled cfg f w).2 = 0
      · exact ⟨hensure, rfl, hfilled, by simp only [hfilled, ne_eq, not_true_eq_false, if_false]⟩
      · simp only [ne_eq, hfilled, not_false_eq_true, if_true] at h
  · rw [start_eq, if_pos hensure] at h
    exact absurd h hensure

/-- Writing the state makes no directory and removes none. -/
theorem isDir_storageWriteToSyncIniFile (cfg : Config) (f : SyncIniFaults) (w : World)
    (g : SyncState) (l : Loc) :
    (storageWriteToSyncIniFile cfg f w g).1.tree.isDir l = w.tree.isDir l := by
  unfold storageWriteToSyncIniFile
  dsimp only
  split
  · rfl
  · split
    · rfl
    · rename_i k t ho
      rw [FileTree.isDir_setFile]
      obtain ⟨-, -, rfl | ⟨hc, -⟩⟩ := FileTree.openWrite_ok ho
      · exact FileTree.isDir_setFile _ _ _ _
      · cases hc

/-- A directory of the two levels below the data directory. -/
def subDirectory (cfg : Config) (cwd : Loc) (i k : ℕ) : Loc :=
  dataDir cfg cwd ++ [hexPair i] ++ [hexPair k]

/-- The base path leaves room for the name of the data directory. -/
theorem dataText_eq (hbase : cfg.basePath.length + 5 < MAX_PATH_SIZE) :
    dataText cfg = cfg.basePath ++ ascii "/data" := by
  have hlen : (cfg.basePath ++ ascii "/data").length = cfg.basePath.length + 5 :=
    List.length_append
  exact List.take_of_length_le (by omega)

/-- The places where a start puts a directory if nothing is there. -/
def Made (cfg : Config) (f : DirFaults) (cwd l : Loc) : Prop :=
  l = dataDir cfg cwd ∨
    ∃ i ∈ List.range DATA_DIR_COUNT_PER_PATH, MadeInTurn f (dataDir cfg cwd) i l

theorem made_subDirectory {d : DirFaults} {cwd : Loc} {i k : ℕ} (hi : i < 256) (hk : k < 256) :
    Made cfg d cwd (subDirectory cfg cwd i k) ↔
      i < DATA_DIR_COUNT_PER_PATH ∧ k < DATA_DIR_COUNT_PER_PATH ∧ d.sub i k = none := by
  constructor
  · rintro (h | ⟨a, ha, ⟨-, h⟩ | ⟨b, hb, hsub, h⟩⟩)
    · have hlen := congrArg List.length h
      simp [subDirectory] at hlen
    · exact absurd h (below_ne _ _ _ _)
    · rw [List.mem_range] at ha hb
      have ha' : a < 256 := ha.trans (by decide)
      have hb' : b < 256 := hb.trans (by decide)
      obtain ⟨houter, hinner⟩ := List.append_inj' h rfl
      have hai := hexPair_append_inj hi ha' houter
      have hbk := (hexPair_inj hk hb').mp (List.singleton_inj.mp hinner)
      rw [hai, hbk]
      exact ⟨ha, hb, hsub⟩
  · rintro ⟨hi', hk', hsub⟩
    exact .inr ⟨i, List.mem_range.mpr hi', .inr ⟨k, List.mem_range.mpr hk', hsub, rfl⟩⟩

/-- What a start that returned 0 leaves of directories. -/
theorem start_adds (hbase : cfg.basePath.length + 5 < MAX_PATH_SIZE)
    (h : (storageCheckAndMakeDataDirs cfg f now w g).2.2 = 0) :
    ∃ t, (∀ l, (storageCheckAndMakeDataDirs cfg f now w g).1.tree.isDir l = t.isDir l) ∧
      t.isDir (dataDir cfg w.cwd) = true ∧
      Adds w.tree t (Made cfg f.dirs w.cwd) := by
  obtain ⟨hensure, henter, hfilled, hwritten⟩ := start_stages h
  refine ⟨(startFilled cfg f w).1.tree, fun l => ?_, ?_⟩
  · rw [hwritten, isDir_storageWriteToSyncIniFile]
  have hcwd := (ensureDir_ok hensure).1.cwd
  obtain ⟨hacc, hadd⟩ := ensureDir_adds hensure
  obtain ⟨l, hl, hdir, hw⟩ := chdir_ok henter
  have hdata : lexical w.cwd (dataText cfg) = dataDir cfg w.cwd := by
    rw [dataText_eq hbase, dataDir]
  have hloc : l = dataDir cfg w.cwd := by
    have hlex := FileTree.locate_lexical hl
    rwa [startEnsured, hcwd, hdata] at hlex
  have htree : (startEntered cfg f w).tree = (startEnsured cfg f w).tree := by
    rw [startEntered, hw]
    rfl
  have hcwd' : (startEntered cfg f w).cwd = dataDir cfg w.cwd := by
    rw [startEntered, hw, ← hloc]
    rfl
  have hd : (startEntered cfg f w).tree.isDir (startEntered cfg f w).cwd = true := by
    rw [htree, hcwd', ← hloc]
    exact hdir
  obtain ⟨-, hadd'⟩ := makeDataDirs_adds hd hfilled
  rw [htree, hcwd'] at hadd'
  refine ⟨hadd'.isDir (hloc ▸ hdir), (hadd.trans hadd').congr fun l => ?_⟩
  rw [hdata]
  rfl

end Starts

section Successes
variable {w : World}

/-- A directory whose making is excused, or that can be made. -/
theorem makeDataDir_made (hd : w.tree.isDir w.cwd = true) {fault : Option Errno} {k : ℕ}
    {tested : Bytes} (h : w.tree.access w.cwd tested = true ∨
      (fault = none ∧ w.tree.node (w.cwd ++ [hexPair k]) = none)) :
    (makeDataDir fault w (hexPair k) tested).2 = true := by
  cases hmk : mkdir fault w (hexPair k) with
  | mk v failed =>
    cases failed with
    | none => simp only [makeDataDir, hmk]
    | some e =>
      rcases h with hacc | ⟨rfl, hn⟩
      · have hv : v = w.touch (hexPair k) := by
          unfold mkdir at hmk
          split at hmk
          · exact (congrArg Prod.fst hmk).symm
          · split at hmk
            · cases hmk
            · exact (congrArg Prod.fst hmk).symm
        simp only [makeDataDir, hmk, fileExists, hv, World.touch_tree, World.touch_cwd, hacc,
          if_true]
      · have hloc := locate_hexPair hd k
        rw [World.locate] at hloc
        simp [mkdir, FileTree.mkdir, hloc, hn] at hmk

/-- Once the name that is looked at is there, the loop goes through whatever fails. -/
theorem makeSubDirs_of_access {f : DirFaults} {i : ℕ} {ks : List ℕ}
    (hd : w.tree.isDir w.cwd = true) (hi : (w.tree.node (w.cwd ++ [hexPair i])).isSome) :
    (makeSubDirs f i ks w).2 = 0 := by
  induction ks generalizing w with
  | nil => rfl
  | cons k ks ih =>
    have hacc : w.tree.access w.cwd (hexPair i) = true :=
      FileTree.access_eq_true.mpr ⟨_, locate_hexPair hd i, hi⟩
    obtain ⟨hcwd, hadd⟩ := makeDataDir_adds hd (f.sub i k) k (hexPair i)
    simp only [makeSubDirs, makeDataDir_made hd (.inl hacc), if_true]
    exact ih (hcwd ▸ hadd.isDir hd) (by rwa [hcwd, hadd.kept _ hi])

/-- In an empty directory all subdirectories can be made. -/
theorem makeSubDirs_of_none {f : DirFaults} {i : ℕ} {ks : List ℕ}
    (hd : w.tree.isDir w.cwd = true) (hnodup : ks.Nodup) (hlt : ∀ k ∈ ks, k < 256)
    (hks : ∀ k ∈ ks, f.sub i k = none ∧ w.tree.node (w.cwd ++ [hexPair k]) = none) :
    (makeSubDirs f i ks w).2 = 0 := by
  induction ks generalizing w with
  | nil => rfl
  | cons k ks ih =>
    obtain ⟨hcwd, hadd⟩ := makeDataDir_adds hd (f.sub i k) k (hexPair i)
    obtain ⟨hk, hnodup'⟩ := List.nodup_cons.mp hnodup
    simp only [makeSubDirs, makeDataDir_made hd (.inr (hks k List.mem_cons_self)), if_true]
    refine ih (hcwd ▸ hadd.isDir hd) hnodup' (fun j hj => hlt j (List.mem_cons_of_mem _ hj))
      fun j hj => ⟨(hks j (List.mem_cons_of_mem _ hj)).1, ?_⟩
    rw [hcwd, hadd.rest]
    · exact (hks j (List.mem_cons_of_mem _ hj)).2
    · rintro ⟨-, heq⟩
      have hjk := hexPair_append_inj (hlt j (List.mem_cons_of_mem _ hj))
        (hlt k List.mem_cons_self) heq
      exact hk (hjk ▸ hj)

/-- A turn of the outer loop goes through in a directory that holds one of its own name, and
where the directory is absent and nothing fails. -/
def TurnReady (f : DirFaults) (t : FileTree) (data : Loc) (i : ℕ) : Prop :=
  f.enter i = false ∧ f.leave i = false ∧
    ((t.isDir (data ++ [hexPair i]) = true ∧
      (t.node (data ++ [hexPair i] ++ [hexPair i])).isSome) ∨
    (t.node (data ++ [hexPair i]) = none ∧ f.dir i = none ∧ ∀ k, f.sub i k = none))

theorem chdir_entered {p : Bytes} {l : Loc} (hl : w.locate p = .ok l)
    (hd : w.tree.isDir l = true) : chdir false w p = ({ w.touch p with cwd := l }, true) := by
  simp [chdir, hl, hd]

/-- A turn that is ready goes through. -/
theorem turn_succeeds {f : DirFaults} {i : ℕ} (hd : w.tree.isDir w.cwd = true)
    (h : TurnReady f w.tree w.cwd i) : (makeDataDir (f.dir i) w (hexPair i) (hexPair i)).2 = true ∧
      (turnEntered f i w).2 = true ∧ (turnFilled f i w).2 = 0 ∧ (turnLeft f i w).2 = true := by
  obtain ⟨henter, hleave, hready⟩ := h
  obtain ⟨hloc, hadd1⟩ := turnMade_adds f i hd
  have hmade : (makeDataDir (f.dir i) w (hexPair i) (hexPair i)).2 = true := by
    refine makeDataDir_made hd (hready.imp (fun hdir => ?_) fun hnone => ⟨hnone.2.1, hnone.1⟩)
    exact FileTree.access_eq_true.mpr ⟨_, locate_hexPair hd i, isSome_of_isDir hdir.1⟩
  have hdir : (turnMade f i w).tree.isDir (w.cwd ++ [hexPair i]) = true := by
    rw [hadd1.isDir_iff]
    exact hready.imp And.left fun hnone => ⟨⟨hnone.2.1, rfl⟩, hnone.1⟩
  have hentered : turnEntered f i w = ({ (turnMade f i w).touch (hexPair i) with
      cwd := w.cwd ++ [hexPair i] }, true) := by
    rw [turnEntered, henter, chdir_entered hloc hdir]
  have hd2 : (turnEntered f i w).1.tree.isDir (turnEntered f i w).1.cwd = true := by
    rw [hentered]
    exact hdir
  have hfilled : (turnFilled f i w).2 = 0 := by
    rcases hready with ⟨-, hinner⟩ | ⟨hnone, -, hsub⟩
    · refine makeSubDirs_of_access hd2 ?_
      rw [hentered]
      change ((turnMade f i w).tree.node _).isSome
      rwa [hadd1.kept _ hinner]
    · refine makeSubDirs_of_none hd2 List.nodup_range
        (fun k hk => (List.mem_range.mp hk).trans (by decide)) fun k _ => ⟨hsub k, ?_⟩
      rw [hentered]
      change (turnMade f i w).tree.node _ = none
      have hbelow : w.tree.node (w.cwd ++ [hexPair i] ++ [hexPair k]) = none := by
        by_contra hne
        have hparent := w.tree.parent _ _ (Option.isSome_iff_ne_none.mpr hne)
        rw [hnone] at hparent
        cases hparent
      rw [hadd1.rest _ fun hnew => below_ne _ _ _ _ hnew.2, hbelow]
  obtain ⟨hcwd3, hadd3⟩ := makeSubDirs_adds hd2 hfilled
  have hcwd3' : (turnFilled f i w).1.cwd = w.cwd ++ [hexPair i] := by
    rw [turnFilled, hcwd3, hentered]
  have hd3 : (turnFilled f i w).1.tree.isDir (turnFilled f i w).1.cwd = true := by
    rw [turnFilled, hcwd3]
    exact hadd3.isDir hd2
  have hup : (turnFilled f i w).1.tree.isDir w.cwd = true := by
    refine hadd3.isDir ?_
    rw [hentered]
    exact hadd1.isDir hd
  refine ⟨hmade, by rw [hentered], hfilled, ?_⟩
  rw [turnLeft, hleave, chdir_entered (locate_up hcwd3' hd3) hup]

/-- The turns that are ready go through: none of them takes the readiness of another away. -/
theorem makeDataDirs_succeeds {f : DirFaults} {is : List ℕ} (hd : w.tree.isDir w.cwd = true)
    (hnodup : is.Nodup) (hlt : ∀ i ∈ is, i < 256)
    (h : ∀ i ∈ is, TurnReady f w.tree w.cwd i) : (makeDataDirs f is w).2 = 0 := by
  induction is generalizing w with
  | nil => rfl
  | cons i is ih =>
    obtain ⟨hi, hnodup'⟩ := List.nodup_cons.mp hnodup
    obtain ⟨hmade, henter, hfilled, hleft⟩ := turn_succeeds hd (h i List.mem_cons_self)
    obtain ⟨hcwd, hadd⟩ := turn_adds hd henter hfilled hleft
    have hrest : makeDataDirs f (i :: is) w = makeDataDirs f is (turnLeft f i w).1 := by
      simp only [makeDataDirs_eq, hmade, henter, hfilled, hleft, Bool.true_eq_false, ne_eq,
        not_true_eq_false, if_false]
    rw [hrest]
    refine ih (hcwd ▸ hadd.isDir hd) hnodup' (fun j hj => hlt j (List.mem_cons_of_mem _ hj))
      fun j hj => ?_
    obtain ⟨henter', hleave', hready⟩ := h j (List.mem_cons_of_mem _ hj)
    rw [hcwd]
    refine ⟨henter', hleave', hready.imp (fun hdir => ⟨hadd.isDir hdir.1, ?_⟩)
      fun hnone => ⟨?_, hnone.2⟩⟩
    · rw [hadd.kept _ hdir.2]
      exact hdir.2
    · rw [hadd.rest, hnone.1]
      rintro (⟨-, heq⟩ | ⟨k, -, -, heq⟩)
      · have hji := hexPair_append_inj (hlt j (List.mem_cons_of_mem _ hj))
          (hlt i List.mem_cons_self) heq
        exact hi (hji ▸ hj)
      · exact below_ne _ _ _ _ heq.symm

/-- A start on a store whose turns are ready and whose state file can be written. -/
theorem start_succeeds {cfg : Config} {f : StartFaults} (data ini : Loc) (now : ℤ) (g : SyncState)
    (hchdir : f.chdir = false) (hini : f.ini = {}) (hdata : w.locate (dataText cfg) = .ok data)
    (hdir : w.tree.isDir data = true)
    (hready : ∀ i < DATA_DIR_COUNT_PER_PATH, TurnReady f.dirs w.tree data i)
    (hpath : w.tree.locate data (syncIniFilename cfg) = .ok ini) (hholds : w.tree.holds ini = true)
    (hmade : ∀ i, ¬ MadeInTurn f.dirs data i ini) :
    (storageCheckAndMakeDataDirs cfg f now w g).2.2 = 0 := by
  have hacc : w.tree.access w.cwd (dataText cfg) = true :=
    FileTree.access_eq_true.mpr ⟨_, hdata, isSome_of_isDir hdir⟩
  have hensure : ensureDir f.mkdir f.errno w (dataText cfg) = (w.touch (dataText cfg), 0) :=
    ensureDir_of_access hacc
  have hensured : startEnsured cfg f w = w.touch (dataText cfg) := by rw [startEnsured, hensure]
  have henter : chdir f.chdir (startEnsured cfg f w) (dataText cfg) =
      ({ (startEnsured cfg f w).touch (dataText cfg) with cwd := data }, true) := by
    rw [hchdir]
    refine chdir_entered ?_ ?_
    · rw [hensured]
      exact hdata
    · rw [hensured]
      exact hdir
  have htree : (startEntered cfg f w).tree = w.tree := by
    rw [startEntered, henter, hensured]
    rfl
  have hcwd : (startEntered cfg f w).cwd = data := by
    rw [startEntered, henter]
    rfl
  have hd : (startEntered cfg f w).tree.isDir (startEntered cfg f w).cwd = true := by
    rw [htree, hcwd]
    exact hdir
  have hfilled : (startFilled cfg f w).2 = 0 := by
    refine makeDataDirs_succeeds hd List.nodup_range
      (fun i hi => (List.mem_range.mp hi).trans (by decide)) fun i hi => ?_
    rw [htree, hcwd]
    exact hready i (List.mem_range.mp hi)
  obtain ⟨hcwd', hadd⟩ := makeDataDirs_adds hd hfilled
  rw [htree, hcwd] at hadd
  have hpath' : (startFilled cfg f w).1.locate (syncIniFilename cfg) = .ok ini := by
    rw [World.locate, startFilled, hcwd', hcwd]
    exact FileTree.locate_mono (fun l hl => hadd.isDir hl) hpath
  have hholds' : (startFilled cfg f w).1.tree.holds ini = true := by
    rw [FileTree.holds_iff] at hholds ⊢
    have hnot : ¬ ∃ i ∈ List.range DATA_DIR_COUNT_PER_PATH, MadeInTurn f.dirs data i ini := by
      rintro ⟨i, -, hi⟩
      exact hmade i hi
    refine ⟨hadd.isDir hholds.1, ?_⟩
    rw [startFilled, hadd.rest _ hnot]
    exact hholds.2
  rw [start_entered (by rw [hensure]) (by rw [henter])]
  simp only [hfilled, ne_eq, not_true_eq_false, if_false, hini,
    storageWriteToSyncIniFile_ok hpath' hholds']

end Successes

section Directories
variable {cfg : Config} {f : StartFaults} {now : ℤ} {w : World} {g : SyncState}

/-- The data directory and the 256 directories of the two levels are there. -/
def DirsThere (cfg : Config) (cwd : Loc) (t : FileTree) : Prop :=
  t.isDir (dataDir cfg cwd) = true ∧
    ∀ i < DATA_DIR_COUNT_PER_PATH, ∀ k < DATA_DIR_COUNT_PER_PATH,
      t.isDir (subDirectory cfg cwd i k) = true

/-- A start that returned 0 left all directories exactly when every one of the second level was
there already, or its place was free and making it did not fail. -/
theorem dirs_made_iff (hbase : cfg.basePath.length + 5 < MAX_PATH_SIZE)
    (h : (storageCheckAndMakeDataDirs cfg f now w g).2.2 = 0) :
    DirsThere cfg w.cwd (storageCheckAndMakeDataDirs cfg f now w g).1.tree ↔
      ∀ i < DATA_DIR_COUNT_PER_PATH, ∀ k < DATA_DIR_COUNT_PER_PATH,
        w.tree.isDir (subDirectory cfg w.cwd i k) = true ∨
          (w.tree.node (subDirectory cfg w.cwd i k) = none ∧ f.dirs.sub i k = none) := by
  obtain ⟨t, hisDir, hdata, hadd⟩ := start_adds hbase h
  simp only [DirsThere, hisDir, hdata, true_and]
  refine forall₄_congr fun i hi k hk => ?_
  rw [hadd.isDir_iff, made_subDirectory (hi.trans (by decide)) (hk.trans (by decide))]
  simp only [hi, hk, true_and, and_comm]

/-- What a start writes besides the directories stands beside them. -/
theorem not_madeInTurn_flag {f : DirFaults} {data : Loc} (i : ℕ) :
    ¬ MadeInTurn f data i (data ++ [DATA_DIR_INITED_FILENAME]) := by
  rintro (⟨-, heq⟩ | ⟨k, -, -, heq⟩)
  · have hname := congrArg List.length (List.singleton_inj.mp (List.append_cancel_left heq))
    have hflag : DATA_DIR_INITED_FILENAME.length ≠ 2 := by decide
    exact hflag hname
  · exact below_ne _ _ _ _ heq.symm

/-- A data directory with nothing in it. -/
def bareTree : FileTree := layeredTree [(· = ascii "b"), (· = ascii "data")]

/-- A data directory in which a start was broken off behind the first subdirectory. -/
def begunTree : FileTree :=
  layeredTree [(· = ascii "b"), (· = ascii "data"), (· = ascii "00"), (· = ascii "00")]

/-- The second subdirectory cannot be made. -/
def fullDisk : StartFaults where
  dirs := { sub := fun i k => if i = 0 ∧ k = 1 then some 28 else none }

theorem bareTree_succeeds :
    (storageCheckAndMakeDataDirs sampleConfig {} 0 (.initial bareTree []) .initial).2.2 = 0 := by
  refine start_succeeds intactData (intactData ++ [DATA_DIR_INITED_FILENAME]) 0
    .initial rfl rfl (by decide) (by decide) (fun i _ => ⟨rfl, rfl, .inr ⟨rfl, rfl, fun _ => rfl⟩⟩)
    (by decide) (by decide) not_madeInTurn_flag

theorem begunTree_fullDisk_succeeds :
    (storageCheckAndMakeDataDirs sampleConfig fullDisk 0 (.initial begunTree []) .initial).2.2 =
      0 := by
  refine start_succeeds intactData (intactData ++ [DATA_DIR_INITED_FILENAME]) 0
    .initial rfl rfl (by decide) (by decide) ?_ (by decide) (by decide) not_madeInTurn_flag
  intro i hi
  refine ⟨rfl, rfl, ?_⟩
  by_cases h0 : i = 0
  · subst h0
    exact .inl ⟨by decide, by decide⟩
  · have hnone : ∀ j < DATA_DIR_COUNT_PER_PATH, j ≠ 0 →
        begunTree.node (intactData ++ [hexPair j]) = none := by decide
    exact .inr ⟨hnone i hi h0, rfl, fun k => if_neg fun h => h0 h.1⟩

theorem bareTree_dirs_made :
    DirsThere sampleConfig [] (storageCheckAndMakeDataDirs sampleConfig {} 0 (.initial bareTree [])
      .initial).1.tree := by
  refine (dirs_made_iff (by decide) bareTree_succeeds).mpr fun i _ k _ => .inr ⟨?_, rfl⟩
  rfl

/-- The start returns 0 and has left out `data/00/01`. -/
theorem begunTree_dirs_missing :
    (storageCheckAndMakeDataDirs sampleConfig fullDisk 0 (.initial begunTree []) .initial).2.2 = 0 ∧
      ¬ DirsThere sampleConfig [] (storageCheckAndMakeDataDirs sampleConfig fullDisk 0
        (.initial begunTree []) .initial).1.tree := by
  refine ⟨begunTree_fullDisk_succeeds, fun h => ?_⟩
  obtain ⟨t, hisDir, -, hadd⟩ := start_adds (by decide) begunTree_fullDisk_succeeds
  have hmissing := h.2 0 (by decide) 1 (by decide)
  rw [hisDir, hadd.isDir_iff] at hmissing
  rcases hmissing with hthere | ⟨hmade, -⟩
  · exact absurd hthere (by decide)
  · have hsub := ((made_subDirectory (by decide) (by decide)).mp hmade).2.2
    cases hsub

end Directories

section Names
variable {cfg : Config} {now : ℤ} {w : World} {g : SyncState}

/-- The two directory names in a generated name. -/
def nameDirs (name : Bytes) : Loc := [name.take 2, (name.drop 3).take 2]

/-- The hash a generated name takes its directories from. -/
def nameHash (st : Base64State) (currentTime r fileSize : ℤ) : ℕ :=
  (PJWHash (base64EncodeEx st (int2buff currentTime ++ int2buff fileSize ++ int2buff r)
    false)).toNat

theorem nameDirs_storageGenFilename (st : Base64State) (currentTime r fileSize : ℤ) :
    nameDirs (storageGenFilename st currentTime r fileSize) =
      [hexPair (nameHash st currentTime r fileSize % 65536 / 256),
       hexPair (nameHash st currentTime r fileSize % 65536 % 256)] := rfl

/-- The directory is there behind a run and was not before. -/
def Created (before after : FileTree) (l : Loc) : Prop :=
  before.node l = none ∧ after.isDir l = true

/-- In a store without directories a start whose calls all succeed creates the directory of a
name exactly when two of the hexadecimal digits of the hash are zero. -/
theorem name_dirs_created_iff (hbase : cfg.basePath.length + 5 < MAX_PATH_SIZE)
    (hfresh : ∀ i < DATA_DIR_COUNT_PER_PATH, w.tree.node (dataDir cfg w.cwd ++ [hexPair i]) = none)
    (h : (storageCheckAndMakeDataDirs cfg {} now w g).2.2 = 0) (st : Base64State)
    (currentTime r fileSize : ℤ) :
    Created w.tree (storageCheckAndMakeDataDirs cfg {} now w g).1.tree
        (dataDir cfg w.cwd ++ nameDirs (storageGenFilename st currentTime r fileSize)) ↔
      nameHash st currentTime r fileSize / 16 % 16 = 0 ∧
        nameHash st currentTime r fileSize / 4096 % 16 = 0 := by
  obtain ⟨t, hisDir, -, hadd⟩ := start_adds hbase h
  set hash := nameHash st currentTime r fileSize
  have hplace : dataDir cfg w.cwd ++ nameDirs (storageGenFilename st currentTime r fileSize) =
      subDirectory cfg w.cwd (hash % 65536 / 256) (hash % 65536 % 256) := by
    rw [nameDirs_storageGenFilename]
    simp [subDirectory, hash]
  have hmade := @made_subDirectory cfg {} w.cwd (hash % 65536 / 256) (hash % 65536 % 256)
    (by omega) (by omega)
  rw [hplace, Created, hisDir, hadd.isDir_iff]
  constructor
  · rintro ⟨hnone, hdir | ⟨hnew, -⟩⟩
    · have hthere := isSome_of_isDir hdir
      rw [hnone] at hthere
      cases hthere
    · obtain ⟨hi, hk, -⟩ := hmade.mp hnew
      simp only [DATA_DIR_COUNT_PER_PATH] at hi hk
      omega
  · rintro ⟨hlow, hhigh⟩
    have hi : hash % 65536 / 256 < DATA_DIR_COUNT_PER_PATH := by
      rw [DATA_DIR_COUNT_PER_PATH]
      omega
    have hk : hash % 65536 % 256 < DATA_DIR_COUNT_PER_PATH := by
      rw [DATA_DIR_COUNT_PER_PATH]
      omega
    have hnone : w.tree.node (subDirectory cfg w.cwd (hash % 65536 / 256) (hash % 65536 % 256)) =
        none := by
      by_contra hne
      have hparent := w.tree.parent _ _ (Option.isSome_iff_ne_none.mpr hne)
      rw [hfresh _ hi] at hparent
      cases hparent
    exact ⟨hnone, .inr ⟨hmade.mpr ⟨hi, hk, rfl⟩, hnone⟩⟩

/-- An alphabet of 64 distinct characters from `0` on. -/
def sampleAlphabet : Base64State :=
  Base64Encoding.encoder [] (fun v : Fin 64 => UInt8.ofNat (v + 48)) 61

theorem bareTree_name_dirs : Created bareTree
    (storageCheckAndMakeDataDirs sampleConfig {} 0 (.initial bareTree []) .initial).1.tree
    (dataDir sampleConfig [] ++ nameDirs (storageGenFilename sampleAlphabet 0 3000090 0)) :=
  (name_dirs_created_iff (by decide) (fun _ _ => rfl) bareTree_succeeds _ _ _ _).mpr
    (by decide +kernel)

/-- The name of three zeros lies in `33/30`, which nothing creates. -/
theorem bareTree_name_without_dirs :
    (Function.Injective sampleAlphabet.valueToChar ∧ 0 ∉ Set.range sampleAlphabet.valueToChar) ∧
      (storageCheckAndMakeDataDirs sampleConfig {} 0 (.initial bareTree []) .initial).2.2 = 0 ∧
      (storageCheckAndMakeDataDirs sampleConfig {} 0 (.initial bareTree []) .initial).1.tree.isDir
        (dataDir sampleConfig [] ++ nameDirs (storageGenFilename sampleAlphabet 0 0 0)) = false := by
  refine ⟨⟨by decide, by decide⟩, bareTree_succeeds, ?_⟩
  obtain ⟨t, hisDir, -, hadd⟩ := start_adds (by decide) bareTree_succeeds
  have hplace : dataDir sampleConfig [] ++ nameDirs (storageGenFilename sampleAlphabet 0 0 0) =
      subDirectory sampleConfig [] 51 48 := by decide +kernel
  have hnot : ¬ 51 < DATA_DIR_COUNT_PER_PATH := by decide
  rw [hplace, hisDir, Bool.eq_false_iff, ne_eq, hadd.isDir_iff]
  rintro (hthere | ⟨hmade, -⟩)
  · exact absurd hthere (by decide)
  · exact hnot ((made_subDirectory (by decide) (by decide)).mp hmade).1

end Names

end DemoStorage.DataDirectories
