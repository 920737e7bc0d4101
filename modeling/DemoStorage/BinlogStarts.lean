import DemoStorage.PathConfinement
import DemoStorage.BinlogRestart

/-!
# What a start leaves of the binlog

A start that returns 0 has either given up because the index could not be created, and then the
stream is null, or opened the index file itself for appending. The log lies in another directory,
so no start leaves a stream on the file of the log.
-/

namespace DemoStorage.BinlogStarts
open ByteStrings LexicalPaths PosixFileTree DaemonState BinlogWriting BinlogRestart PathConfinement

/-- The state a start owes: the stream appends to the file of the log that the index names, the
index and the size are right, and the lock is there. -/
structure Ready (cfg : Config) (w : World) : Prop where
  stream : ∃ l c, w.fpBinlog = some ⟨l, true⟩ ∧
    w.locate (getWritableBinlogFilename cfg w) = .ok l ∧ w.tree.content l = some c ∧
    w.binlogFileSize = c.length
  index : 0 ≤ w.binlogIndex
  lock : w.syncThreadLock = true

section Paths
variable {cfg : Config} {cwd : Loc}

theorem lexical_below_base (cfg : Config) (cwd : Loc) (p : Bytes) :
    lexical cwd (cfg.basePath ++ slash :: p) =
      resolveFrom (lexical cwd cfg.basePath) (components p) :=
  lexical_append_slash _ _ _ cfg.basePath_ne

/-- The index file that is read and opened is two levels below the base path. -/
theorem lexical_syncIndexFilename (hbase : cfg.basePath.length + 18 < MAX_PATH_SIZE) :
    lexical cwd (syncIndexFilename cfg) =
      lexical cwd cfg.basePath ++ [ascii "sync", ascii "binlog.index"] := by
  have hsync : (cfg.basePath ++ ascii "/sync").length = cfg.basePath.length + 5 :=
    List.length_append
  have hcut : cutPath (cfg.basePath ++ ascii "/sync") = cfg.basePath ++ ascii "/sync" :=
    List.take_of_length_le (by omega)
  have hparts : ascii "/sync" ++ ascii "/" ++ ascii "binlog.index" =
      slash :: ascii "sync/binlog.index" := by decide
  have hpath : cfg.basePath ++ ascii "/sync" ++ ascii "/" ++ ascii "binlog.index" =
      cfg.basePath ++ slash :: ascii "sync/binlog.index" := by
    rw [← hparts]
    simp only [List.append_assoc]
  have hlen : (cfg.basePath ++ slash :: ascii "sync/binlog.index").length =
      cfg.basePath.length + 18 := List.length_append
  have hfits : cutPath (cfg.basePath ++ slash :: ascii "sync/binlog.index") =
      cfg.basePath ++ slash :: ascii "sync/binlog.index" := List.take_of_length_le (by omega)
  have hcomponents : components (ascii "sync/binlog.index") =
      [.name (ascii "sync"), .name (ascii "binlog.index")] := by decide
  rw [syncIndexFilename, hcut, hpath, hfits, lexical_below_base, hcomponents]
  simp [resolveFrom_cons, Component.apply]

/-- A file of the log is three levels below the base path. -/
theorem length_lexical_binlogFilename (hbase : cfg.basePath.length + 18 < MAX_PATH_SIZE)
    (index : ℤ) : (lexical cwd (binlogFilename cfg index)).length =
      (lexical cwd cfg.basePath).length + 3 := by
  have hlen : (cfg.basePath ++ ascii "/data/sync/binlog.").length = cfg.basePath.length + 18 :=
    List.length_append
  obtain ⟨k, hk⟩ : ∃ k, binlogFilename cfg index =
      cfg.basePath ++ ascii "/data/sync/binlog." ++ (decimal3 index).take k := by
    refine ⟨MAX_PATH_SIZE - 1 - (cfg.basePath ++ ascii "/data/sync/binlog.").length, ?_⟩
    rw [binlogFilename, cutPath, List.take_append, List.take_of_length_le (by omega)]
  have hparts : ascii "/data/sync/binlog." =
      slash :: (ascii "data" ++ slash :: (ascii "sync" ++ slash :: ascii "binlog.")) := by decide
  have hpath : binlogFilename cfg index = cfg.basePath ++ slash :: (ascii "data" ++ slash ::
      (ascii "sync" ++ slash :: (ascii "binlog." ++ (decimal3 index).take k))) := by
    rw [hk, hparts]
    simp only [List.append_assoc, List.cons_append]
  have hslash : slash ∉ ascii "binlog." ++ (decimal3 index).take k := by
    have hbinlog : slash ∉ ascii "binlog." := by decide
    rw [List.mem_append, not_or]
    exact ⟨hbinlog, fun h => slash_notMem_decimal3 index (List.mem_of_mem_take h)⟩
  have hname : component (ascii "binlog." ++ (decimal3 index).take k) =
      .name (ascii "binlog." ++ (decimal3 index).take k) := by
    have hhead : (ascii "binlog." ++ (decimal3 index).take k).head? = some 98 := rfl
    refine component_name ?_ ?_ ?_ <;> intro h <;> rw [h] at hhead <;> cases hhead
  have hdata : components (ascii "data") = [.name (ascii "data")] := by decide
  have hsync : components (ascii "sync") = [.name (ascii "sync")] := by decide
  rw [hpath, lexical_below_base, components_append_slash, components_append_slash,
    components_of_notMem hslash, hname, hdata, hsync]
  simp [resolveFrom_cons, Component.apply]

end Paths

section Starts
variable {cfg : Config}

theorem readBinlogIndex_cwd {f : InitFaults} {w v : World}
    (h : readBinlogIndex cfg f w = .goOn v) : v.cwd = w.cwd := by
  simp only [readBinlogIndex] at h
  split at h
  · split_ifs at h
    cases h
    rfl
  · split_ifs at h with hdir hw
    cases h
    exact (writeToBinlogIndex_ok (not_not.mp hw)).1.cwd

/-- A start that returned 0 left a null stream or one on the index file. -/
theorem storageSyncInit_stream {f : InitFaults} {w : World} (hw : w.fpBinlog = none)
    (h : (storageSyncInit cfg f w).2 = 0) :
    (storageSyncInit cfg f w).1.fpBinlog = none ∨
      ((storageSyncInit cfg f w).1.cwd = w.cwd ∧ (storageSyncInit cfg f w).1.fpBinlog =
        some ⟨lexical w.cwd (syncIndexFilename cfg), true⟩) := by
  simp only [storageSyncInit] at h ⊢
  by_cases h1 : (ensureDir f.mkdirData f.errno w (cutPath (cfg.basePath ++ ascii "/data"))).2 = 0
  · obtain ⟨hk1, -⟩ := ensureDir_ok h1
    generalize (ensureDir f.mkdirData f.errno w (cutPath (cfg.basePath ++ ascii "/data"))) = r1 at *
    by_cases h2 : (ensureDir f.mkdirSync f.errno r1.1
        (cutPath (cfg.basePath ++ ascii "/sync"))).2 = 0
    · obtain ⟨hk2, -⟩ := ensureDir_ok h2
      generalize (ensureDir f.mkdirSync f.errno r1.1
        (cutPath (cfg.basePath ++ ascii "/sync"))) = r2 at *
      have hk := hk1.trans hk2
      simp only [h1, h2, ne_eq, not_true_eq_false, if_false] at h ⊢
      cases h3 : readBinlogIndex cfg f r2.1 with
      | done v r =>
        left
        simp only [readBinlogIndex_done h3, hk.stream, hw]
      | goOn v =>
        right
        simp only [h3] at h ⊢
        obtain ⟨l, t, size, ho, -, he⟩ := openBinlogStream_eq h
        have hcwd : v.cwd = w.cwd := (readBinlogIndex_cwd h3).trans hk.cwd
        have hl := FileTree.locate_lexical (FileTree.openWrite_ok ho).1
        rw [he, hl, hcwd]
        exact ⟨hcwd, rfl⟩
    · simp only [h1, h2, ne_eq, not_true_eq_false, not_false_eq_true, if_true, if_false] at h
  · simp only [h1, ne_eq, not_false_eq_true, if_true] at h

/-- No start that returns 0 leaves the state it owes. -/
theorem start_not_ready {f : InitFaults} {tree : FileTree} {cwd : Loc}
    (hbase : cfg.basePath.length + 18 < MAX_PATH_SIZE)
    (h : (storageSyncInit cfg f (.initial tree cwd)).2 = 0) :
    ¬ Ready cfg (storageSyncInit cfg f (.initial tree cwd)).1 := by
  rintro ⟨⟨l, c, hs, hl, -, -⟩, -, -⟩
  rcases storageSyncInit_stream rfl h with hnull | ⟨hcwd, hopen⟩
  · rw [hnull] at hs
    cases hs
  · -- the two files stand at different depths
    rw [hopen] at hs
    obtain rfl := congrArg Stream.loc (Option.some.inj hs)
    have hlex := FileTree.locate_lexical hl
    rw [hcwd] at hlex
    have hdepth := congrArg List.length hlex
    rw [getWritableBinlogFilename, length_lexical_binlogFilename hbase] at hdepth
    simp only [World.initial, lexical_syncIndexFilename hbase, List.length_append] at hdepth
    simp at hdepth

/-- A start on an intact store opens the index file. -/
theorem sampleTree_not_ready :
    ¬ Ready sampleConfig (storageSyncInit sampleConfig {} (.initial sampleTree [])).1 :=
  start_not_ready (by decide) (by decide +kernel)

/-- A new store: only the base path is there. -/
def newTree : FileTree := FileTree.empty.makeDir [ascii "b"]

/-- The first start on a new store returns 0 without a stream, and the next write uses it. -/
theorem newTree_null_stream :
    (storageSyncInit sampleConfig {} (.initial newTree [])).2 = 0 ∧
      ¬ Ready sampleConfig (storageSyncInit sampleConfig {} (.initial newTree [])).1 ∧
      (storageBinlogWrite sampleConfig {} (storageSyncInit sampleConfig {} (.initial newTree [])).1
        STORAGE_OP_TYPE_SOURCE_CREATE_FILE (ascii "00/00/a")).1.nullStreamUse = true := by
  refine ⟨by decide +kernel, ?_, by decide +kernel⟩
  rintro ⟨⟨l, c, hs, -⟩, -, -⟩
  have hnull : (storageSyncInit sampleConfig {} (.initial newTree [])).1.fpBinlog = none := by
    decide +kernel
  rw [hnull] at hs
  cases hs

end Starts

end DemoStorage.BinlogStarts
