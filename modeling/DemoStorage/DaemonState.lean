import DemoStorage.MetadataRecords
import DemoStorage.GeneratedNames

/-!
# State of the storage daemon and its file functions

The world holds the file tree, the globals of the daemon and four ghost fields: the paths
handed to file-system calls, the binlog writes that returned 0, whether a null stream
was ever used, and whether a fault has killed the process. Failures that come from outside
are arguments: each call site has a field saying whether it fails. `logError` opens and locks
a log file, so `errno` as read behind it may hold anything and is an argument as well. The
file it opens is below `base/logs`, which nothing makes; it is taken as absent.
-/

namespace DemoStorage.DaemonState
open ByteStrings LexicalPaths PosixFileTree MetadataRecords GeneratedNames

def MAX_PATH_SIZE : ℕ := 256
def FDFS_GROUP_NAME_MAX_LEN : ℤ := 16
def STORAGE_META_FILE_EXT : Bytes := ascii "-m"

/-- Settings, and the static state no request changes. -/
structure Config where
  basePath : Bytes
  groupName : Bytes
  base64 : Base64State
  qsort : MetaQsort
  basePath_cstr : 0 ∉ basePath
  basePath_ne : basePath ≠ []
  basePath_length : basePath.length < MAX_PATH_SIZE
  groupName_cstr : 0 ∉ groupName
  groupName_length : (groupName.length : ℤ) ≤ FDFS_GROUP_NAME_MAX_LEN

/-- A server with short settings, for concrete runs. -/
def sampleConfig : Config where
  basePath := ascii "/b"
  groupName := ascii "g"
  base64 := initialState
  qsort := mergeQsort
  basePath_cstr := by decide
  basePath_ne := by decide
  basePath_length := by decide
  groupName_cstr := by decide
  groupName_length := by decide

structure FDFSStorageStat where
  totalUploadCount : ℤ
  successUploadCount : ℤ
  totalSetMetaCount : ℤ
  successSetMetaCount : ℤ
  totalDeleteCount : ℤ
  successDeleteCount : ℤ
  totalDownloadCount : ℤ
  successDownloadCount : ℤ
  totalGetMetaCount : ℤ
  successGetMetaCount : ℤ
  lastSourceUpdate : ℤ
  lastSyncUpdate : ℤ
  deriving DecidableEq

/-- An open `FILE *`: the file and whether the mode appends. -/
structure Stream where
  loc : Loc
  append : Bool
  deriving DecidableEq

/-- One binlog record: time, operation and file name. -/
structure LogRecord where
  time : ℤ
  op : Byte
  filename : Bytes
  deriving DecidableEq

structure World where
  tree : FileTree
  cwd : Loc
  binlogIndex : ℤ
  fpBinlog : Option Stream
  binlogFileSize : ℤ
  syncThreadLock : Bool
  stat : FDFSStorageStat
  statChangeCount : ℤ
  statFile : Bytes
  continueFlag : Bool
  calls : List Bytes
  written : List LogRecord
  nullStreamUse : Bool
  killed : Bool

/-- `errno != 0 ? errno : dflt`. -/
def errnoOr (errno dflt : Errno) : Errno := if errno ≠ 0 then errno else dflt

theorem errnoOr_ne_zero {errno dflt : Errno} (h : dflt ≠ 0) : errnoOr errno dflt ≠ 0 := by
  unfold errnoOr
  split <;> assumption

theorem errnoOr_ENOENT_ne_zero (errno : Errno) : errnoOr errno ENOENT ≠ 0 :=
  errnoOr_ne_zero (by decide)

/-- `snprintf` into an array of `MAX_PATH_SIZE` bytes. -/
def cutPath (p : Bytes) : Bytes := p.take (MAX_PATH_SIZE - 1)

/-- `"%s/data/%s"` with the base path. -/
def dataPath (cfg : Config) (filename : Bytes) : Bytes :=
  cfg.basePath ++ ascii "/data/" ++ filename

/-- The data directory, resolved lexically. -/
def dataDir (cfg : Config) (cwd : Loc) : Loc := lexical cwd (cfg.basePath ++ ascii "/data")

theorem dataPath_eq (cfg : Config) (name : Bytes) :
    dataPath cfg name = (cfg.basePath ++ ascii "/data") ++ slash :: name := by
  have hdata : ascii "/data/" = ascii "/data" ++ [slash] := by decide
  simp [dataPath, hdata]

/-- A path below the data directory resolves from there. -/
theorem lexical_below_data (cfg : Config) (cwd : Loc) (p : Bytes) :
    lexical cwd ((cfg.basePath ++ ascii "/data") ++ slash :: p) =
      resolveFrom (dataDir cfg cwd) (components p) := by
  have hne : cfg.basePath ++ ascii "/data" ≠ [] := by simp [cfg.basePath_ne]
  exact lexical_append_slash _ _ _ hne

theorem lexical_dataPath (cfg : Config) (cwd : Loc) (name : Bytes) :
    lexical cwd (dataPath cfg name) = resolveFrom (dataDir cfg cwd) (components name) := by
  rw [dataPath_eq, lexical_below_data]

/-- The name of a metadata file is no dot component. -/
theorem component_meta (c : Bytes) : component (c ++ STORAGE_META_FILE_EXT) =
    .name (c ++ STORAGE_META_FILE_EXT) := by
  have hlen : (c ++ STORAGE_META_FILE_EXT).length = c.length + 2 := List.length_append
  have hlast : (c ++ STORAGE_META_FILE_EXT).getLast? = some 109 := List.getLast?_append
  refine component_name ?_ ?_ ?_ <;> intro he <;> rw [he] at hlast <;> cases hlast

theorem dataPath_meta (cfg : Config) (name : Bytes) :
    dataPath cfg (name ++ STORAGE_META_FILE_EXT) = dataPath cfg name ++ STORAGE_META_FILE_EXT := by
  simp [dataPath]

namespace World

/-- The globals as the program starts. -/
def initial (tree : FileTree) (cwd : Loc) : World where
  tree := tree
  cwd := cwd
  binlogIndex := 0
  fpBinlog := none
  binlogFileSize := 0
  syncThreadLock := false
  stat := ⟨0, 0, 0, 0, 0, 0, 0, 0, 0, 0, 0, 0⟩
  statChangeCount := 1
  statFile := []
  continueFlag := true
  calls := []
  written := []
  nullStreamUse := false
  killed := false

def touch (w : World) (p : Bytes) : World := { w with calls := w.calls ++ [p] }

def locate (w : World) (p : Bytes) : Except Errno Loc := w.tree.locate w.cwd p

@[simp] theorem touch_tree (w : World) (p : Bytes) : (w.touch p).tree = w.tree := rfl
@[simp] theorem touch_cwd (w : World) (p : Bytes) : (w.touch p).cwd = w.cwd := rfl
@[simp] theorem touch_fpBinlog (w : World) (p : Bytes) :
    (w.touch p).fpBinlog = w.fpBinlog := rfl
@[simp] theorem touch_binlogFileSize (w : World) (p : Bytes) :
    (w.touch p).binlogFileSize = w.binlogFileSize := rfl
@[simp] theorem touch_written (w : World) (p : Bytes) : (w.touch p).written = w.written := rfl
@[simp] theorem touch_calls (w : World) (p : Bytes) : (w.touch p).calls = w.calls ++ [p] := rfl

end World

/-- The existence test also succeeds on directories. -/
def fileExists (w : World) (filename : Bytes) : World × Bool :=
  (w.touch filename, w.tree.access w.cwd filename)

/-- `unlink`; the fault is an outside failure with its error number. -/
def unlink (fault : Option Errno) (w : World) (filename : Bytes) : World × Option Errno :=
  match fault with
  | some e => (w.touch filename, some e)
  | none => match w.tree.unlink w.cwd filename with
    | .ok t => ({ w.touch filename with tree := t }, none)
    | .error e => (w.touch filename, some e)

structure WriteFaults where
  fopen : Bool := false
  /-- the number of bytes `fwrite` reports when it fails -/
  fwrite : Option ℕ := none
  /-- the number of bytes in the file when `fclose` fails to write what was buffered -/
  fclose : Option ℕ := none
  errno : Errno := 0

/-- What is in the file behind `fclose`, whose result nobody asks for. -/
def leftByFclose (f : WriteFaults) (buff : Bytes) : Bytes :=
  match f.fclose with
  | none => buff
  | some k => buff.take k

/-- A short write leaves what was written in the file. -/
def writeToFile (f : WriteFaults) (w : World) (filename buff : Bytes) : World × Errno :=
  if f.fopen then (w.touch filename, errnoOr f.errno ENOENT)
  else match w.tree.openWrite w.cwd filename true with
    | .error _ => (w.touch filename, errnoOr f.errno ENOENT)
    | .ok (l, t) => match f.fwrite with
      | none => ({ w.touch filename with tree := t.setFile l (leftByFclose f buff) }, 0)
      | some k =>
        if k < buff.length then
          ({ w.touch filename with tree := t.setFile l (leftByFclose f (buff.take k)) },
            errnoOr f.errno ENOENT)
        else ({ w.touch filename with tree := t.setFile l (leftByFclose f buff) }, 0)

structure ReadFaults where
  fopen : Option Errno := none
  fseek : Option Errno := none
  ftell : Bool := false
  /-- where the file system says that a directory ends, as an `int` -/
  dirEnd : ℤ := -1
  malloc : Option Errno := none
  fread : Option Errno := none
  errno : Errno := 0

/-- What `fopen` with mode `rb` opens: where it ends, and its bytes. A directory can be opened,
but it has none. -/
def openedFile (f : ReadFaults) (w : World) (filename : Bytes) :
    Except Errno (ℤ × Option Bytes) :=
  match w.tree.openRead w.cwd filename with
  | .ok b => .ok (wrap32 b.length, some b)
  | .error e => if e = EISDIR then .ok (f.dirEnd, none) else .error e

theorem openedFile_eq (f : ReadFaults) (w : World) (filename : Bytes) :
    openedFile f w filename = match w.tree.locate w.cwd filename with
      | .error e => .error e
      | .ok l => match w.tree.node l with
        | some .dir => .ok (f.dirEnd, none)
        | some (.file b) => .ok (wrap32 b.length, some b)
        | none => .error ENOENT := by
  have hlocate := FileTree.locate_ne_EISDIR w.tree w.cwd filename
  have hne : ENOENT ≠ EISDIR := by decide
  unfold openedFile FileTree.openRead
  cases hl : w.tree.locate w.cwd filename with
  | error e =>
    have he : e ≠ EISDIR := fun he => hlocate (by rw [hl, he])
    simp only [he, if_false]
  | ok l =>
    dsimp only
    rcases w.tree.node l with _ | _ | b
    · exact if_neg hne
    · exact if_pos rfl
    · rfl

/-- What can be opened is there. -/
theorem access_of_openedFile {f : ReadFaults} {w : World} {filename : Bytes} {x : ℤ × Option Bytes}
    (h : openedFile f w filename = .ok x) : w.tree.access w.cwd filename = true := by
  rw [openedFile_eq] at h
  split at h
  · cases h
  · rename_i l hl
    refine FileTree.access_eq_true.mpr ⟨l, hl, ?_⟩
    split at h
    · simp [*]
    · simp [*]
    · cases h

theorem openedFile_read {f : ReadFaults} {w : World} {p b : Bytes} {fileSize : ℤ}
    (h : openedFile f w p = .ok (fileSize, some b)) : w.tree.openRead w.cwd p = .ok b := by
  unfold openedFile at h
  split at h
  · obtain ⟨-, hb⟩ := Prod.mk.inj (Except.ok.inj h)
    rwa [← Option.some.inj hb]
  · split_ifs at h
    cases (Prod.mk.inj (Except.ok.inj h)).2

theorem openedFile_some {f : ReadFaults} {w : World} {p b : Bytes} {fileSize : ℤ}
    (h : openedFile f w p = .ok (fileSize, some b)) : fileSize = wrap32 b.length := by
  unfold openedFile at h
  split at h
  · obtain ⟨rfl, hb⟩ := Prod.mk.inj (Except.ok.inj h)
    rw [Option.some.inj hb]
  · split_ifs at h
    cases (Prod.mk.inj (Except.ok.inj h)).2

/-- Result and the allocated buffer; the size is an `int`. -/
def getFileContent (f : ReadFaults) (w : World) (filename : Bytes) :
    World × Errno × Option Bytes :=
  let w' := w.touch filename
  match f.fopen with
  | some e => (w', errnoOr e ENOENT, none)
  | none => match openedFile f w filename with
    | .error e => (w', errnoOr e ENOENT, none)
    | .ok (fileSize, content) => match f.fseek with
      | some e => (w', errnoOr e ENOENT, none)
      | none =>
        if f.ftell ∨ fileSize < 0 then (w', errnoOr f.errno ENOENT, none)
        else match f.malloc with
          | some e => (w', errnoOr e ENOMEM, none)
          | none => match f.fread with
            | some e => (w', errnoOr e ENOENT, none)
            | none => match content with
              | some b => (w', 0, some (b.take fileSize.toNat))
              -- only a read of no bytes goes through
              | none => if fileSize = 0 then (w', 0, some []) else (w', EISDIR, none)

/-- Reading a file leaves a trace in the calls only. -/
theorem getFileContent_world (f : ReadFaults) (w : World) (p : Bytes) :
    (getFileContent f w p).1 = w.touch p := by
  unfold getFileContent
  dsimp only
  repeat' (first | rfl | split)

end DemoStorage.DaemonState
