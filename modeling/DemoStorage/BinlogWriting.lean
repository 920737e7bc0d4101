import DemoStorage.DaemonState

/-!
# The binlog

`storage_binlog_write` appends one line to an open stream and rotates to the next file
when the size counter reaches its limit; `storage_sync_init` reads the index file and opens
the stream. Both are written as the source has them: destroying the sync state clears the
stream pointer before closing it, the next file is opened for reading, and the stream
opened at start is the one of the index file. A call of `storage_binlog_write` without a result
does not return, since the process dies in it.
-/

namespace DemoStorage.BinlogWriting
open ByteStrings LexicalPaths PosixFileTree DaemonState

def SYNC_BINLOG_FILE_MAX_SIZE : ℤ := 1024 * 1024 * 1024
def EAGAIN : Errno := 11

def STORAGE_OP_TYPE_SOURCE_CREATE_FILE : Byte := 67
def STORAGE_OP_TYPE_SOURCE_DELETE_FILE : Byte := 68
def STORAGE_OP_TYPE_SOURCE_UPDATE_FILE : Byte := 85
def STORAGE_OP_TYPE_REPLICA_CREATE_FILE : Byte := 99
def STORAGE_OP_TYPE_REPLICA_DELETE_FILE : Byte := 100
def STORAGE_OP_TYPE_REPLICA_UPDATE_FILE : Byte := 117

/-- `%03d`. -/
def decimal3 (n : ℤ) : Bytes :=
  let ds := numeral 10 n.natAbs
  if n < 0 then 45 :: (List.replicate (2 - ds.length) 48 ++ ds)
  else List.replicate (3 - ds.length) 48 ++ ds

/-- Name of the binlog file with an index. -/
def binlogFilename (cfg : Config) (index : ℤ) : Bytes :=
  cutPath (cfg.basePath ++ ascii "/data/sync/binlog." ++ decimal3 index)

def getWritableBinlogFilename (cfg : Config) (w : World) : Bytes :=
  binlogFilename cfg w.binlogIndex

/-- Where `write_to_binlog_index` keeps the index. -/
def binlogIndexFilename (cfg : Config) : Bytes :=
  cutPath (cfg.basePath ++ ascii "/data/sync/" ++ ascii "binlog.index")

structure IndexFaults where
  fopen : Bool := false
  fprintf : Bool := false
  errno : Errno := 0

def writeToBinlogIndex (cfg : Config) (f : IndexFaults) (w : World) : World × Errno :=
  let full := binlogIndexFilename cfg
  if f.fopen then (w.touch full, errnoOr f.errno ENOENT)
  else match w.tree.openWrite w.cwd full true with
    | .error _ => (w.touch full, errnoOr f.errno ENOENT)
    | .ok (l, t) =>
      if f.fprintf then ({ w.touch full with tree := t.setFile l [] }, errnoOr f.errno ENOENT)
      else ({ w.touch full with tree := t.setFile l (decimal w.binlogIndex) }, 0)

structure DestroyFaults where
  mutexDestroy : Bool := false
  errno : Errno := 0

/-- The pointer is cleared before `fclose` gets it, so what is closed is a null stream. -/
def storageSyncDestroy (f : DestroyFaults) (w : World) : World × Errno :=
  let w' := match w.fpBinlog with
    | some _ => { w with fpBinlog := none, nullStreamUse := true }
    | none => w
  if f.mutexDestroy then (w', errnoOr f.errno ENOENT)
  else ({ w' with syncThreadLock := false }, 0)

structure RotateFaults where
  index : IndexFaults := {}
  destroy : DestroyFaults := {}
  unlink : Option Errno := none
  fopen : Bool := false
  errno : Errno := 0

/-- Unlink a path that exists. -/
def unlinkExisting (fault : Option Errno) (w : World) (full : Bytes) : World × Option Errno :=
  let (w, exist) := fileExists w full
  if exist then unlink fault w full else (w, none)

/-- The result of opening the file, and the state, are those of a process that survives the
closing of a null stream. -/
def openNextWritableBinlog (cfg : Config) (f : RotateFaults) (w : World) : World × Errno :=
  let w := (storageSyncDestroy f.destroy w).1
  let full := getWritableBinlogFilename cfg w
  let (w, failed) := unlinkExisting f.unlink w full
  if failed.isSome then (w, errnoOr f.errno ENOENT)
  else
    let w := w.touch full
    match w.tree.openRead w.cwd full, w.tree.locate w.cwd full with
    | .ok _, .ok l =>
      if f.fopen then (w, errnoOr f.errno ENOENT)
      else ({ w with fpBinlog := some ⟨l, false⟩ }, 0)
    | _, _ => (w, errnoOr f.errno ENOENT)

structure BinlogFaults where
  /-- `(int)time(NULL)` of the record -/
  time : ℤ := 0
  lock : Bool := false
  fprintf : Bool := false
  /-- a failing flush and the number of bytes that had reached the file -/
  fflush : Option ℕ := none
  unlock : Bool := false
  rotate : RotateFaults := {}
  errno : Errno := 0
  unlockErrno : Errno := 0

/-- `"%d %c %s\n"`. -/
def recordText (r : LogRecord) : Bytes :=
  decimal r.time ++ 32 :: r.op :: 32 :: (r.filename ++ [10])

/-- The record a call writes: `%s` prints the C string. -/
def logRecord (f : BinlogFaults) (opType : Byte) (filename : Bytes) : LogRecord :=
  ⟨wrap32 f.time, opType, cstr filename⟩

/-- The limit was reached: advance the index and open the next file. The process dies as the
file that is full is closed, so what it would do behind that is for the record. -/
def rotateBinlog (cfg : Config) (f : RotateFaults) (w : World) : World × Option Errno :=
  let closing := w.fpBinlog.isSome
  let w := { w with binlogIndex := wrap32 (w.binlogIndex + 1) }
  let (w, written) := writeToBinlogIndex cfg f.index w
  let (w, r) := if written = 0 then openNextWritableBinlog cfg f w else (w, written)
  let w := { w with binlogFileSize := 0 }
  (if r ≠ 0 then { w with continueFlag := false } else w,
    if written = 0 ∧ closing then none else some r)

/-- What happens between taking and releasing the file lock. The message for a failing `fprintf`
formats a line number as a string, of which the process dies. -/
def appendRecord (cfg : Config) (f : BinlogFaults) (w : World) (s : Stream) (text : Bytes) :
    World × Option Errno :=
  if f.fprintf ∨ s.append = false ∨ INT_MAX < text.length then ({ w with killed := true }, none)
  else match f.fflush with
    | some k =>
      ({ w with tree := w.tree.appendFile s.loc (text.take k) }, some (errnoOr f.errno ENOENT))
    | none =>
      let w := { w with
        tree := w.tree.appendFile s.loc text
        binlogFileSize := wrap32 (w.binlogFileSize + text.length) }
      if SYNC_BINLOG_FILE_MAX_SIZE ≤ w.binlogFileSize then rotateBinlog cfg f.rotate w
      else (w, some 0)

/-- `fileno` of a null stream is undefined behaviour; the model notes it, and the call does not
return. -/
def storageBinlogWrite (cfg : Config) (f : BinlogFaults) (w : World) (opType : Byte)
    (filename : Bytes) : World × Option Errno :=
  match w.fpBinlog with
  | none => ({ w with nullStreamUse := true }, none)
  | some s =>
    if f.lock then (w, some (errnoOr f.errno ENOENT))
    else
      let record := logRecord f opType filename
      match appendRecord cfg f w s (recordText record) with
      | (w, none) => (w, none)
      | (w, some r) =>
        if f.unlock then (w, some (errnoOr f.unlockErrno ENOENT))
        else if r = 0 then ({ w with written := w.written ++ [record] }, some 0)
        else (w, some r)

structure InitFaults where
  mkdirData : Bool := false
  mkdirSync : Bool := false
  fopenIndex : Bool := false
  fread : Bool := false
  index : IndexFaults := {}
  fopenLog : Bool := false
  ftell : Bool := false
  destroy : DestroyFaults := {}
  lockInit : Bool := false
  errno : Errno := 0

/-- Make a directory unless the path exists. -/
def ensureDir (fails : Bool) (errno : Errno) (w : World) (p : Bytes) : World × Errno :=
  let (w, exist) := fileExists w p
  if exist then (w, 0)
  else if fails then (w.touch p, errnoOr errno ENOENT)
  else match w.tree.mkdir w.cwd p with
    | .ok t => ({ w.touch p with tree := t }, 0)
    | .error _ => (w.touch p, errnoOr errno ENOENT)

/-- Path of the index file as `storage_sync_init` builds it. -/
def syncIndexFilename (cfg : Config) : Bytes :=
  cutPath (cutPath (cfg.basePath ++ ascii "/sync") ++ ascii "/" ++ ascii "binlog.index")

/-- Outcome of reading or creating the index: go on, or return a value. -/
inductive IndexStep where
  | goOn (w : World)
  | done (w : World) (result : Errno)

def readBinlogIndex (cfg : Config) (f : InitFaults) (w : World) : IndexStep :=
  let full := syncIndexFilename cfg
  let w := w.touch full
  match if f.fopenIndex then .error EACCES else w.tree.openRead w.cwd full with
  | .ok b =>
    let fileBuff := b.take (MAX_PATH_SIZE - 1)
    if f.fread ∨ fileBuff = [] then .done w (errnoOr f.errno ENOENT)
    else
      let w := { w with binlogIndex := atoi fileBuff }
      if w.binlogIndex < 0 then .done w EINVAL else .goOn w
  | .error e =>
    -- a directory can be opened for reading, and the read fails
    if e = EISDIR then .done w (errnoOr f.errno ENOENT)
    else
      let (w, r) := writeToBinlogIndex cfg f.index { w with binlogIndex := 0 }
      -- a failure to create the index is reported as success
      if r ≠ 0 then .done w 0 else .goOn w

/-- The stream appends to the index file: `full_filename` is not replaced in between. -/
def openBinlogStream (cfg : Config) (f : InitFaults) (w : World) : World × Errno :=
  let full := syncIndexFilename cfg
  let w := w.touch full
  if f.fopenLog then ({ w with fpBinlog := none }, errnoOr f.errno ENOENT)
  else match w.tree.openWrite w.cwd full false with
    | .error _ => ({ w with fpBinlog := none }, errnoOr f.errno ENOENT)
    | .ok (l, t) =>
      let size := if f.ftell then -1 else wrap32 ((t.content l).getD []).length
      let w := { w with tree := t, fpBinlog := some ⟨l, true⟩, binlogFileSize := size }
      if size < 0 then ((storageSyncDestroy f.destroy w).1, errnoOr f.errno ENOENT)
      else if f.lockInit then (w, errnoOr f.errno EAGAIN)
      else ({ w with syncThreadLock := true }, 0)

def storageSyncInit (cfg : Config) (f : InitFaults) (w : World) : World × Errno :=
  let (w, r) := ensureDir f.mkdirData f.errno w (cutPath (cfg.basePath ++ ascii "/data"))
  if r ≠ 0 then (w, r)
  else
    let (w, r) := ensureDir f.mkdirSync f.errno w (cutPath (cfg.basePath ++ ascii "/sync"))
    if r ≠ 0 then (w, r)
    else match readBinlogIndex cfg f w with
      | .done w r => (w, r)
      | .goOn w => openBinlogStream cfg f w

/-- Directories of a store with one data directory, for concrete runs. -/
def sampleDirs : FileTree :=
  let b := ascii "b"
  let data := ascii "data"
  let sync := ascii "sync"
  let dirs : List Loc := [[b], [b, data], [b, data, ascii "00"], [b, data, ascii "00", ascii "00"],
    [b, data, sync], [b, sync]]
  dirs.foldl FileTree.makeDir .empty

/-- Where the store behind a start keeps its log. -/
def sampleLogLoc : Loc := [ascii "b", ascii "sync", ascii "binlog.index"]

def sampleTree : FileTree := sampleDirs.setFile sampleLogLoc (ascii "0")

/-- The store behind a successful start. -/
def sampleWorld : World := (storageSyncInit sampleConfig {} (.initial sampleTree [])).1

/-- The store behind a first start: there was no index file. -/
def freshWorld : World := (storageSyncInit sampleConfig {} (.initial sampleDirs [])).1

example : sampleWorld.fpBinlog = some ⟨sampleLogLoc, true⟩ := by decide +kernel

end DemoStorage.BinlogWriting
