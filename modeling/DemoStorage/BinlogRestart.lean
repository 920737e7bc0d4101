import DemoStorage.BinlogRotation

/-!
# Restarting the daemon on its own binlog

A session is a run of binlog writes; a restart forgets the globals and runs
`storage_sync_init` on the files. The records go to the file the index is read from, so a
restart recovers the index when that file held a number already and its end is not extended
by the records.
-/

namespace DemoStorage.BinlogRestart
open ByteStrings LexicalPaths PosixFileTree DaemonState BinlogWriting BinlogOutcomes
open ConditionedRuns BinlogRotation

/-- A new process on the files another one left. -/
def restart (cfg : Config) (w : World) : World × Errno :=
  storageSyncInit cfg {} (.initial w.tree w.cwd)

def session (cfg : Config) (w : World) (cs : List BinlogCall) : World := run (writeStep cfg) w cs

def sessionStep (cfg : Config) (w : World) (cs : List BinlogCall) : World :=
  (restart cfg (session cfg w cs)).1

/-- What a restart behind a session owes. -/
structure Recovers (cfg : Config) (w : World) (cs : List BinlogCall) : Prop where
  result : (restart cfg (session cfg w cs)).2 = 0
  index : (sessionStep cfg w cs).binlogIndex = (session cfg w cs).binlogIndex
  stream : ∃ l c, (session cfg w cs).fpBinlog = some ⟨l, true⟩ ∧
    (sessionStep cfg w cs).fpBinlog = some ⟨l, true⟩ ∧
    (sessionStep cfg w cs).tree.content l = some c ∧
    (session cfg w cs).tree.content l = some c ∧
    (sessionStep cfg w cs).binlogFileSize = c.length

/-- The call puts nothing into the file. -/
def Silent (c : BinlogCall) : Prop := Unprinted c.faults c.text

/-- The number at the start of the part that is read back has its end in it. -/
def IndexTerminated (c : Bytes) : Prop := MAX_PATH_SIZE - 1 ≤ c.length ∨ NumberEnds c

instance (c : Bytes) : Decidable (IndexTerminated c) := inferInstanceAs (Decidable (_ ∨ _))

/-- The condition on a session: no write reaches the size limit; the file held a number when
the session began, and nothing was written to it unless that number had its end; and the
length of the file fits an `int` when the session ends. -/
structure SessionKept (cfg : Config) (w : World) (cs : List BinlogCall) : Prop where
  noRotation : Meets (writeStep cfg)
    (fun w c => w.binlogFileSize + c.text.length < SYNC_BINLOG_FILE_MAX_SIZE) w cs
  number : ∀ l c, w.fpBinlog = some ⟨l, true⟩ → w.tree.content l = some c →
    c ≠ [] ∧ ((∀ call ∈ cs, Silent call) ∨ IndexTerminated c)
  length : ∀ l c, (session cfg w cs).fpBinlog = some ⟨l, true⟩ →
    (session cfg w cs).tree.content l = some c → (c.length : ℤ) ≤ INT_MAX

/-- One state is the other with some bytes appended to the log file. -/
structure Extended (l : Loc) (w : World) (c : Bytes) (v : World) (x : Bytes) : Prop where
  cwd : v.cwd = w.cwd
  stream : v.fpBinlog = w.fpBinlog
  index : v.binlogIndex = w.binlogIndex
  isDir : ∀ k, v.tree.isDir k = w.tree.isDir k
  exists_iff : ∀ k, (v.tree.node k).isSome = (w.tree.node k).isSome
  content : v.tree.content l = some (c ++ x)

theorem Extended.refl {l : Loc} {w : World} {c : Bytes} (h : w.tree.content l = some c) :
    Extended l w c w [] :=
  ⟨rfl, rfl, rfl, fun _ => rfl, fun _ => rfl, by rw [h, List.append_nil]⟩

theorem Extended.trans {l : Loc} {w v u : World} {c x y : Bytes} (h : Extended l w c v x)
    (h' : Extended l v (c ++ x) u y) : Extended l w c u (x ++ y) :=
  ⟨h'.cwd.trans h.cwd, h'.stream.trans h.stream, h'.index.trans h.index,
    fun k => (h'.isDir k).trans (h.isDir k), fun k => (h'.exists_iff k).trans (h.exists_iff k),
    by rw [h'.content, List.append_assoc]⟩

theorem Extended.congr {l : Loc} {w v u : World} {c x : Bytes} (h : Extended l w c v x)
    (hcwd : u.cwd = v.cwd) (hs : u.fpBinlog = v.fpBinlog) (hi : u.binlogIndex = v.binlogIndex)
    (ht : u.tree = v.tree) : Extended l w c u x :=
  ⟨hcwd.trans h.cwd, hs.trans h.stream, hi.trans h.index, ht ▸ h.isDir, ht ▸ h.exists_iff,
    ht ▸ h.content⟩

theorem extended_appended {l : Loc} {w : World} {c : Bytes} (h : w.tree.content l = some c)
    (x : Bytes) : Extended l w c (appended w l x) x :=
  ⟨rfl, rfl, rfl, fun k => FileTree.isDir_appendFile _ _ _ _,
    fun k => FileTree.isSome_node_appendFile _ _ _ _, by
      have := FileTree.content_appendFile h x l
      rwa [if_pos rfl] at this⟩

section Sessions
variable {cfg : Config} {w : World} {l : Loc} {c : Bytes}

/-- A write below the limit only extends the log file. -/
theorem writeStep_extended (hs : w.fpBinlog = some ⟨l, true⟩) (hc : w.tree.content l = some c)
    (h0 : 0 ≤ w.binlogFileSize) (call : BinlogCall)
    (hroom : w.binlogFileSize + call.text.length < SYNC_BINLOG_FILE_MAX_SIZE) :
    0 ≤ (writeStep cfg w call).binlogFileSize ∧
      ∃ x, Extended l w c (writeStep cfg w call) x := by
  have hnext : nextSize w call.text.length = w.binlogFileSize + call.text.length := by
    simp only [SYNC_BINLOG_FILE_MAX_SIZE] at hroom
    exact wrap32_eq (by omega) (by omega)
  have hnonneg : 0 ≤ nextSize w call.text.length := by omega
  have hout := storageBinlogWrite_outcome cfg call.faults w call.op call.filename
  unfold writeStep write
  generalize storageBinlogWrite cfg call.faults w call.op call.filename = r at hout
  obtain ⟨v, r⟩ := r
  dsimp only at hout ⊢
  cases hout with
  | nullStream hn => simp [hs] at hn
  | refused => exact ⟨h0, [], .refl hc⟩
  | died => exact ⟨h0, [], (Extended.refl hc).congr rfl rfl rfl rfl⟩
  | torn s hs' k =>
    rw [hs] at hs'
    cases hs'
    exact ⟨h0, _, extended_appended hc _⟩
  | logged s hs' =>
    rw [hs] at hs'
    cases hs'
    exact ⟨hnonneg, _, (extended_appended hc call.text).congr rfl rfl rfl rfl⟩
  | notUnlocked s hs' =>
    rw [hs] at hs'
    cases hs'
    exact ⟨hnonneg, _, (extended_appended hc call.text).congr rfl rfl rfl rfl⟩
  | rotated s hs' hsize =>
    change SYNC_BINLOG_FILE_MAX_SIZE ≤ nextSize w call.text.length at hsize
    omega

theorem session_extended (hs : w.fpBinlog = some ⟨l, true⟩) (hc : w.tree.content l = some c)
    (h0 : 0 ≤ w.binlogFileSize) {cs : List BinlogCall}
    (h : Meets (writeStep cfg)
      (fun w c => w.binlogFileSize + c.text.length < SYNC_BINLOG_FILE_MAX_SIZE) w cs) :
    ∃ x, Extended l w c (session cfg w cs) x := by
  induction cs generalizing w c with
  | nil => exact ⟨[], .refl hc⟩
  | cons call cs ih =>
    obtain ⟨h1, x, hx⟩ := writeStep_extended hs hc h0 call h.1
    obtain ⟨y, hy⟩ := ih (hx.stream.trans hs) hx.content h1 h.2
    exact ⟨x ++ y, hx.trans hy⟩

/-- A silent call leaves the log file as it is. -/
theorem writeStep_silent (hs : w.fpBinlog = some ⟨l, true⟩) (hc : w.tree.content l = some c)
    {call : BinlogCall} (h : Silent call) : (writeStep cfg w call).tree.content l = some c := by
  have happ : (appended w l []).tree.content l = some c := by
    simpa using (extended_appended hc []).content
  obtain ⟨v, r, -, he, rfl | rfl | rfl⟩ := storageBinlogWrite_eq_of_unprinted cfg hs h
  · rwa [writeStep, write, he]
  · rwa [writeStep, write, he]
  · rwa [writeStep, write, he]

theorem session_silent (hs : w.fpBinlog = some ⟨l, true⟩) (hc : w.tree.content l = some c)
    {cs : List BinlogCall} (h0 : 0 ≤ w.binlogFileSize) (h : Meets (writeStep cfg)
      (fun w c => w.binlogFileSize + c.text.length < SYNC_BINLOG_FILE_MAX_SIZE) w cs)
    (hsilent : ∀ call ∈ cs, Silent call) : (session cfg w cs).tree.content l = some c := by
  induction cs generalizing w with
  | nil => exact hc
  | cons call cs ih =>
    obtain ⟨h1, x, hx⟩ := writeStep_extended hs hc h0 call h.1
    exact ih (hx.stream.trans hs) (writeStep_silent hs hc (hsilent call List.mem_cons_self)) h1 h.2
      fun call hcall => hsilent call (List.mem_cons_of_mem _ hcall)

end Sessions

section Restarts

/-- The directories exist and a place is that of the index file. -/
structure Prepared (cfg : Config) (tree : FileTree) (cwd : Loc) (l : Loc) : Prop where
  data : tree.access cwd (cutPath (cfg.basePath ++ ascii "/data")) = true
  sync : tree.access cwd (cutPath (cfg.basePath ++ ascii "/sync")) = true
  path : tree.locate cwd (syncIndexFilename cfg) = .ok l

/-- The index file is open for appending and the index was read from it, unless it is empty. -/
structure Opened (cfg : Config) (w : World) (l : Loc) (c : Bytes) : Prop where
  prepared : Prepared cfg w.tree w.cwd l
  stream : w.fpBinlog = some ⟨l, true⟩
  content : w.tree.content l = some c
  size : 0 ≤ w.binlogFileSize
  index : 0 ≤ w.binlogIndex
  number : c ≠ [] → w.binlogIndex = atoi (c.take (MAX_PATH_SIZE - 1))

theorem Prepared.extended {cfg : Config} {w v : World} {l k : Loc} {c x : Bytes}
    (h : Prepared cfg w.tree w.cwd k) (hx : Extended l w c v x) : Prepared cfg v.tree v.cwd k := by
  have haccess (p : Bytes) (hp : w.tree.access w.cwd p = true) : v.tree.access v.cwd p = true := by
    rw [FileTree.access_eq_true] at hp ⊢
    obtain ⟨m, hm, hn⟩ := hp
    refine ⟨m, ?_, by rwa [hx.exists_iff]⟩
    rwa [hx.cwd, FileTree.locate_ok_congr hx.isDir]
  refine ⟨haccess _ h.data, haccess _ h.sync, ?_⟩
  rw [hx.cwd, FileTree.locate_ok_congr hx.isDir]
  exact h.path

theorem ensureDir_of_access {fails : Bool} {errno : Errno} {w : World} {p : Bytes}
    (h : w.tree.access w.cwd p = true) : ensureDir fails errno w p = (w.touch p, 0) := by
  simp [ensureDir, fileExists, h]

theorem readBinlogIndex_of_content {cfg : Config} {w : World} {l : Loc} {c : Bytes}
    (hl : w.tree.locate w.cwd (syncIndexFilename cfg) = .ok l) (hc : w.tree.content l = some c)
    (hne : c ≠ []) (hindex : 0 ≤ atoi (c.take (MAX_PATH_SIZE - 1))) :
    readBinlogIndex cfg {} w = .goOn { w.touch (syncIndexFilename cfg) with
      binlogIndex := atoi (c.take (MAX_PATH_SIZE - 1)) } := by
  have hread := FileTree.openRead_of_content hl hc
  have htake : c.take (MAX_PATH_SIZE - 1) ≠ [] := by
    simpa [MAX_PATH_SIZE] using hne
  simp only [readBinlogIndex, Bool.false_eq_true, if_false, World.touch_tree, World.touch_cwd,
    hread, htake, or_self, not_lt.mpr hindex]

theorem openBinlogStream_of_content {cfg : Config} {w : World} {l : Loc} {c : Bytes}
    (hl : w.tree.locate w.cwd (syncIndexFilename cfg) = .ok l) (hc : w.tree.content l = some c)
    (hlen : (c.length : ℤ) ≤ INT_MAX) :
    openBinlogStream cfg {} w = ({ w.touch (syncIndexFilename cfg) with
      fpBinlog := some ⟨l, true⟩, binlogFileSize := c.length, syncThreadLock := true }, 0) := by
  have hopen := FileTree.openWrite_of_content hl hc
  have hsize : wrap32 c.length = c.length := by
    simp only [INT_MAX] at hlen
    exact wrap32_eq (by omega) (by omega)
  have hpos : ¬ (c.length : ℤ) < 0 := by omega
  simp only [openBinlogStream, Bool.false_eq_true, if_false, World.touch_tree, World.touch_cwd,
    hopen, hc, Option.getD_some, hsize, hpos]

/-- A start on an index file with a number in it. -/
theorem restart_of_prepared {cfg : Config} {w : World} {l : Loc} {c : Bytes}
    (h : Prepared cfg w.tree w.cwd l) (hc : w.tree.content l = some c) (hne : c ≠ [])
    (hlen : (c.length : ℤ) ≤ INT_MAX) (hindex : 0 ≤ atoi (c.take (MAX_PATH_SIZE - 1))) :
    ∃ v, restart cfg w = (v, 0) ∧ v.binlogFileSize = c.length ∧ Opened cfg v l c := by
  set v0 := World.initial w.tree w.cwd with hv0
  set v1 := (v0.touch (cutPath (cfg.basePath ++ ascii "/data"))).touch
    (cutPath (cfg.basePath ++ ascii "/sync")) with hv1
  have h1 : ensureDir false 0 v0 (cutPath (cfg.basePath ++ ascii "/data")) = (_, 0) :=
    ensureDir_of_access h.data
  have h2 : ensureDir false 0 (v0.touch (cutPath (cfg.basePath ++ ascii "/data")))
      (cutPath (cfg.basePath ++ ascii "/sync")) = (v1, 0) := ensureDir_of_access h.sync
  have h3 := @readBinlogIndex_of_content cfg v1 l c h.path hc hne hindex
  have h4 := @openBinlogStream_of_content cfg { v1.touch (syncIndexFilename cfg) with
    binlogIndex := atoi (c.take (MAX_PATH_SIZE - 1)) } l c h.path hc hlen
  have he : restart cfg w = openBinlogStream cfg {} { v1.touch (syncIndexFilename cfg) with
      binlogIndex := atoi (c.take (MAX_PATH_SIZE - 1)) } := by
    simp only [restart, storageSyncInit, ← hv0, h1, h2, h3, ne_eq, not_true_eq_false, if_false]
  exact ⟨_, he.trans h4, rfl, ⟨h.data, h.sync, h.path⟩, rfl, hc, Int.natCast_nonneg _, hindex,
    fun _ => rfl⟩

end Restarts

section Starts

/-- Nothing that existed is gone and nothing was opened. -/
structure Keeps (w v : World) : Prop where
  cwd : v.cwd = w.cwd
  stream : v.fpBinlog = w.fpBinlog
  isDir : ∀ l, w.tree.isDir l = true → v.tree.isDir l = true
  exists_of : ∀ l, (w.tree.node l).isSome → (v.tree.node l).isSome

theorem Keeps.access {w v : World} (h : Keeps w v) {p : Bytes}
    (hp : w.tree.access w.cwd p = true) : v.tree.access v.cwd p = true := by
  rw [FileTree.access_eq_true] at hp ⊢
  obtain ⟨l, hl, hn⟩ := hp
  exact ⟨l, by rw [h.cwd]; exact FileTree.locate_mono h.isDir hl, h.exists_of l hn⟩

theorem Keeps.trans {w v u : World} (h : Keeps w v) (h' : Keeps v u) : Keeps w u :=
  ⟨h'.cwd.trans h.cwd, h'.stream.trans h.stream, fun l hl => h'.isDir l (h.isDir l hl),
    fun l hl => h'.exists_of l (h.exists_of l hl)⟩

theorem ensureDir_ok {fails : Bool} {errno : Errno} {w : World} {p : Bytes}
    (h : (ensureDir fails errno w p).2 = 0) : Keeps w (ensureDir fails errno w p).1 ∧
      (ensureDir fails errno w p).1.tree.access (ensureDir fails errno w p).1.cwd p = true := by
  have hne : errnoOr errno ENOENT ≠ 0 := errnoOr_ENOENT_ne_zero _
  cases hx : w.tree.access w.cwd p with
  | true =>
    rw [ensureDir_of_access hx]
    exact ⟨⟨rfl, rfl, fun l hl => hl, fun l hl => hl⟩, hx⟩
  | false =>
    cases fails with
    | true =>
      simp only [ensureDir, fileExists, hx, Bool.false_eq_true, if_false, if_true] at h
      exact absurd h hne
    | false =>
      simp only [ensureDir, fileExists, hx, Bool.false_eq_true, if_false, World.touch_tree,
        World.touch_cwd] at h ⊢
      cases hm : w.tree.mkdir w.cwd p with
      | error e => simp [hm, hne] at h
      | ok t =>
        obtain ⟨l, hl, hd, hn, rfl⟩ := FileTree.mkdir_ok hm
        have hnode := FileTree.node_makeDir hd hn
        have hdir (k : Loc) (hk : w.tree.isDir k = true) : (w.tree.makeDir l).isDir k = true := by
          simp only [FileTree.isDir, decide_eq_true_eq] at hk ⊢
          rw [hnode, hk, ite_self]
        refine ⟨⟨rfl, rfl, hdir, fun k hk => ?_⟩, FileTree.access_eq_true.mpr
          ⟨l, FileTree.locate_mono hdir hl, ?_⟩⟩
        · simp only [hnode]
          split_ifs
          · rfl
          · exact hk
        · simp [hnode]

theorem writeToBinlogIndex_eq {cfg : Config} {f : IndexFaults} {w : World}
    (h : (writeToBinlogIndex cfg f w).2 = 0) : ∃ k, w.tree.holds k = true ∧
      writeToBinlogIndex cfg f w = ({ w.touch (binlogIndexFilename cfg) with
        tree := (w.tree.setFile k []).setFile k (decimal w.binlogIndex) }, 0) := by
  have hne : errnoOr f.errno ENOENT ≠ 0 := errnoOr_ENOENT_ne_zero _
  simp only [writeToBinlogIndex] at h ⊢
  cases hf : f.fopen with
  | true => simp [hf, hne] at h
  | false =>
    cases ho : w.tree.openWrite w.cwd (binlogIndexFilename cfg) true with
    | error e => simp [hf, ho, hne] at h
    | ok r =>
      obtain ⟨k, t⟩ := r
      obtain ⟨-, hholds, rfl | ⟨hc, -⟩⟩ := FileTree.openWrite_ok ho
      · cases hp : f.fprintf with
        | true => simp [hf, ho, hp, hne] at h
        | false => exact ⟨k, hholds, by simp only [Bool.false_eq_true, if_false]⟩
      · cases hc

theorem writeToBinlogIndex_ok {cfg : Config} {f : IndexFaults} {w : World}
    (h : (writeToBinlogIndex cfg f w).2 = 0) : Keeps w (writeToBinlogIndex cfg f w).1 ∧
      (writeToBinlogIndex cfg f w).1.binlogIndex = w.binlogIndex ∧
      (∀ l, (writeToBinlogIndex cfg f w).1.tree.isDir l = w.tree.isDir l) ∧
      ∃ k, ∀ l, (writeToBinlogIndex cfg f w).1.tree.content l =
        if l = k then some (decimal w.binlogIndex) else w.tree.content l := by
  obtain ⟨k, hk, he⟩ := writeToBinlogIndex_eq h
  rw [he]
  refine ⟨⟨rfl, rfl, fun l hl => by simpa using hl, fun l hl => ?_⟩, rfl, fun l => by simp, k,
    fun l => ?_⟩
  · exact FileTree.isSome_setFile _ _ (FileTree.isSome_setFile _ _ hl)
  · dsimp only
    rw [FileTree.content_setFile (by simpa using hk), FileTree.content_setFile hk]
    split_ifs <;> rfl

/-- Where the index was read or created, it stands in the file or the file is absent. -/
theorem readBinlogIndex_goOn {cfg : Config} {f : InitFaults} {w v : World}
    (hf : f.fopenIndex = false) (h : readBinlogIndex cfg f w = .goOn v) :
    Keeps w v ∧ 0 ≤ v.binlogIndex ∧ ∀ l c, v.tree.locate v.cwd (syncIndexFilename cfg) = .ok l →
      v.tree.content l = some c → v.binlogIndex = atoi (c.take (MAX_PATH_SIZE - 1)) := by
  simp only [readBinlogIndex, hf, Bool.false_eq_true, if_false] at h
  cases hr : (w.touch (syncIndexFilename cfg)).tree.openRead (w.touch (syncIndexFilename cfg)).cwd
      (syncIndexFilename cfg) with
  | ok b =>
    simp only [hr] at h
    split_ifs at h with hbad hneg
    cases h
    refine ⟨⟨rfl, rfl, fun _ h => h, fun _ h => h⟩, not_lt.mp hneg, fun l c hl hc => ?_⟩
    obtain ⟨l', hl', hb⟩ := FileTree.openRead_ok hr
    have : l = l' := Except.ok.inj (hl.symm.trans hl')
    subst this
    have : b = c := Option.some.inj (hb.symm.trans hc)
    rw [this]
  | error e =>
    simp only [hr] at h
    generalize hu : ({ w.touch (syncIndexFilename cfg) with binlogIndex := 0 } : World) = u at h
    split_ifs at h with hdir hw
    cases h
    obtain ⟨hk, hi, hd, k, hc⟩ := writeToBinlogIndex_ok (not_not.mp hw)
    have hu0 : u.binlogIndex = 0 := by rw [← hu]
    have hut : u.tree = w.tree := by rw [← hu, World.touch_tree]
    have huc : u.cwd = w.cwd := by rw [← hu, World.touch_cwd]
    have hus : u.fpBinlog = w.fpBinlog := by rw [← hu, World.touch_fpBinlog]
    refine ⟨⟨hk.cwd.trans huc, hk.stream.trans hus, hut ▸ hk.isDir, hut ▸ hk.exists_of⟩,
      by rw [hi, hu0], fun l c hl hcl => ?_⟩
    -- a file that could not be read has a content now only if it is the index just written
    rw [hc, hu0] at hcl
    split_ifs at hcl
    · cases hcl
      rw [hi, hu0]
      decide
    · rw [hk.cwd, FileTree.locate_ok_congr hd, hut, huc] at hl
      rw [hut] at hcl
      rw [World.touch_tree, World.touch_cwd, FileTree.openRead_of_content hl hcl] at hr
      cases hr

theorem openBinlogStream_eq {cfg : Config} {f : InitFaults} {w : World}
    (h : (openBinlogStream cfg f w).2 = 0) : ∃ l t size,
      w.tree.openWrite w.cwd (syncIndexFilename cfg) false = .ok (l, t) ∧ 0 ≤ size ∧
      openBinlogStream cfg f w = ({ w.touch (syncIndexFilename cfg) with
        tree := t, fpBinlog := some ⟨l, true⟩, binlogFileSize := size, syncThreadLock := true },
        0) := by
  have hne : errnoOr f.errno ENOENT ≠ 0 := errnoOr_ENOENT_ne_zero _
  have hagain : errnoOr f.errno EAGAIN ≠ 0 := errnoOr_ne_zero (by decide)
  simp only [openBinlogStream, World.touch_tree, World.touch_cwd] at h ⊢
  cases hf : f.fopenLog with
  | true => simp [hf, hne] at h
  | false =>
    cases ho : w.tree.openWrite w.cwd (syncIndexFilename cfg) false with
    | error e => simp [hf, ho, hne] at h
    | ok r =>
      obtain ⟨l, t⟩ := r
      simp only [hf, ho, Bool.false_eq_true, if_false] at h ⊢
      generalize (if f.ftell = true then (-1 : ℤ) else _) = size at h ⊢
      by_cases hs : size < 0
      · simp [hs, hne] at h
      · cases hl : f.lockInit with
        | true => simp [hs, hl, hagain] at h
        | false => exact ⟨l, t, size, rfl, not_lt.mp hs, by simp only [hs, if_false]; rfl⟩

theorem writeToBinlogIndex_fpBinlog (cfg : Config) (f : IndexFaults) (w : World) :
    (writeToBinlogIndex cfg f w).1.fpBinlog = w.fpBinlog := by
  simp only [writeToBinlogIndex]
  cases f.fopen with
  | true => rfl
  | false => cases w.tree.openWrite w.cwd (binlogIndexFilename cfg) true with
    | error e => rfl
    | ok r => cases f.fprintf <;> rfl

/-- A start that ends with the index opens no stream. -/
theorem readBinlogIndex_done {cfg : Config} {f : InitFaults} {w v : World} {r : Errno}
    (h : readBinlogIndex cfg f w = .done v r) : v.fpBinlog = w.fpBinlog := by
  simp only [readBinlogIndex] at h
  split at h
  · split_ifs at h <;> cases h <;> rfl
  · split_ifs at h <;> cases h
    · rfl
    · exact writeToBinlogIndex_fpBinlog _ _ _

/-- Opening the stream of a prepared store. -/
theorem opened_of_openWrite {cfg : Config} {v u : World} {l : Loc} {t : FileTree}
    (hdata : v.tree.access v.cwd (cutPath (cfg.basePath ++ ascii "/data")) = true)
    (hsync : v.tree.access v.cwd (cutPath (cfg.basePath ++ ascii "/sync")) = true)
    (hnum : ∀ c, v.tree.locate v.cwd (syncIndexFilename cfg) = .ok l → v.tree.content l = some c →
      v.binlogIndex = atoi (c.take (MAX_PATH_SIZE - 1)))
    (ho : v.tree.openWrite v.cwd (syncIndexFilename cfg) false = .ok (l, t))
    (htree : u.tree = t) (hcwd : u.cwd = v.cwd) (hindex : u.binlogIndex = v.binlogIndex)
    (hstream : u.fpBinlog = some ⟨l, true⟩) (hsize : 0 ≤ u.binlogFileSize)
    (hpos : 0 ≤ v.binlogIndex) : ∃ c, Opened cfg u l c := by
  obtain ⟨hl, hholds, ht⟩ := FileTree.openWrite_ok ho
  have hd (k : Loc) : t.isDir k = v.tree.isDir k := by
    obtain rfl | ⟨-, rfl, -⟩ := ht
    · simp
    · rfl
  have hkeeps : Keeps { v with fpBinlog := u.fpBinlog } u := by
    refine ⟨hcwd, rfl, fun k hk => by rw [htree, hd]; exact hk, fun k hk => ?_⟩
    rw [htree]
    obtain rfl | ⟨-, rfl, -⟩ := ht
    · exact FileTree.isSome_setFile _ _ hk
    · exact hk
  have hprep : Prepared cfg u.tree u.cwd l := by
    refine ⟨hkeeps.access hdata, hkeeps.access hsync, ?_⟩
    rw [htree, hcwd, FileTree.locate_ok_congr hd]
    exact hl
  obtain rfl | ⟨-, rfl, hc⟩ := ht
  · refine ⟨[], hprep, hstream, ?_, hsize, by rwa [hindex], fun h => absurd rfl h⟩
    rw [htree, FileTree.content_setFile hholds, if_pos rfl]
  · obtain ⟨c, hc⟩ := Option.isSome_iff_exists.mp hc
    exact ⟨c, hprep, hstream, by rwa [htree], hsize, by rwa [hindex],
      fun _ => hindex.trans (hnum c hl hc)⟩

/-- A start that opened the stream. -/
theorem storageSyncInit_opened {cfg : Config} {f : InitFaults} {w : World}
    (hf : f.fopenIndex = false) (h0 : (storageSyncInit cfg f w).2 = 0) (hw : w.fpBinlog = none)
    (hopen : (storageSyncInit cfg f w).1.fpBinlog ≠ none) :
    ∃ l c, Opened cfg (storageSyncInit cfg f w).1 l c := by
  simp only [storageSyncInit] at h0 hopen ⊢
  by_cases h1 : (ensureDir f.mkdirData f.errno w (cutPath (cfg.basePath ++ ascii "/data"))).2 = 0
  · obtain ⟨hk1, ha1⟩ := ensureDir_ok h1
    generalize (ensureDir f.mkdirData f.errno w (cutPath (cfg.basePath ++ ascii "/data"))) = r1 at *
    by_cases h2 : (ensureDir f.mkdirSync f.errno r1.1 (cutPath (cfg.basePath ++ ascii "/sync"))).2 = 0
    · obtain ⟨hk2, ha2⟩ := ensureDir_ok h2
      generalize (ensureDir f.mkdirSync f.errno r1.1
        (cutPath (cfg.basePath ++ ascii "/sync"))) = r2 at *
      have hk := hk1.trans hk2
      simp only [h1, h2, ne_eq, not_true_eq_false, if_false] at h0 hopen ⊢
      cases h3 : readBinlogIndex cfg f r2.1 with
      | done v r =>
        -- the stream stays closed when the index could be neither read nor created
        simp only [h3, readBinlogIndex_done h3, hk.stream, hw, not_true_eq_false] at hopen
      | goOn v =>
        simp only [h3] at h0 hopen ⊢
        obtain ⟨hk3, hi, hnum⟩ := readBinlogIndex_goOn hf h3
        obtain ⟨l, t, size, ho, hsize, he⟩ := openBinlogStream_eq h0
        rw [he]
        exact ⟨l, opened_of_openWrite (hk3.access (hk2.access ha1)) (hk3.access ha2)
          (fun c => hnum l c) ho rfl rfl rfl rfl hsize hi⟩
    · simp only [h1, h2, ne_eq, not_true_eq_false, not_false_eq_true, if_true, if_false] at h0
  · simp only [h1, ne_eq, not_false_eq_true, if_true] at h0

end Starts

section Recovery
variable {cfg : Config}

/-- What is appended behind the end of the number does not change the index that is read. -/
theorem IndexTerminated.atoi_append {c : Bytes} (h : IndexTerminated c) (x : Bytes) :
    atoi ((c ++ x).take (MAX_PATH_SIZE - 1)) = atoi (c.take (MAX_PATH_SIZE - 1)) := by
  by_cases hlen : MAX_PATH_SIZE - 1 ≤ c.length
  · rw [List.take_append_of_le_length hlen]
  · have hends : NumberEnds c := h.resolve_left hlen
    rw [List.take_append, List.take_of_length_le (by omega)]
    exact ByteStrings.atoi_append hends _

/-- A session that keeps to the condition is recovered by the restart behind it. -/
theorem sessionStep_recovers {w : World} {l : Loc} {c : Bytes} {cs : List BinlogCall}
    (h : Opened cfg w l c) (hk : SessionKept cfg w cs) :
    Recovers cfg w cs ∧ ∃ c', Opened cfg (sessionStep cfg w cs) l c' := by
  obtain ⟨hne, hnum⟩ := hk.number l c h.stream h.content
  obtain ⟨x, hx⟩ := session_extended h.stream h.content h.size hk.noRotation
  have hs : (session cfg w cs).fpBinlog = some ⟨l, true⟩ := hx.stream.trans h.stream
  have hne' : c ++ x ≠ [] := List.append_ne_nil_of_left_ne_nil hne x
  have hindex : atoi ((c ++ x).take (MAX_PATH_SIZE - 1)) = w.binlogIndex := by
    rw [h.number hne]
    obtain hsilent | hterm := hnum
    · have hsame := session_silent h.stream h.content h.size hk.noRotation hsilent
      rw [Option.some.inj (hx.content.symm.trans hsame)]
    · exact hterm.atoi_append x
  obtain ⟨v, he, hsize, hv⟩ := restart_of_prepared (h.prepared.extended hx) hx.content hne'
    (hk.length l _ hs hx.content) (by rw [hindex]; exact h.index)
  have hv' : sessionStep cfg w cs = v := congrArg Prod.fst he
  refine ⟨⟨congrArg Prod.snd he, ?_, l, c ++ x, hs, ?_, ?_, hx.content, ?_⟩, c ++ x, ?_⟩
  · rw [hv', hv.number hne', hindex, hx.index]
  · rw [hv', hv.stream]
  · rw [hv', hv.content]
  · rw [hv', hsize]
  · rw [hv']
    exact hv

/-- Behind a start that opened the stream, every restart recovers its session as long as the
sessions keep to the condition. -/
theorem sessions_recovered (f : InitFaults) (tree : FileTree) (cwd : Loc)
    (sessions : List (List BinlogCall)) (hf : f.fopenIndex = false)
    (h0 : (storageSyncInit cfg f (.initial tree cwd)).2 = 0)
    (hopen : (storageSyncInit cfg f (.initial tree cwd)).1.fpBinlog ≠ none)
    (hkept : Meets (sessionStep cfg) (SessionKept cfg)
      (storageSyncInit cfg f (.initial tree cwd)).1 sessions) :
    Meets (sessionStep cfg) (Recovers cfg) (storageSyncInit cfg f (.initial tree cwd)).1
      sessions := by
  refine hkept.conclude (I := fun w => ∃ l c, Opened cfg w l c)
    (storageSyncInit_opened hf h0 rfl hopen) ?_
  rintro w cs ⟨l, c, h⟩ hk
  obtain ⟨hrec, c', h'⟩ := sessionStep_recovers h hk
  exact ⟨hrec, l, c', h'⟩

private theorem sessionKept_of_content {w : World} {cs : List BinlogCall} {l k : Loc}
    (hs : w.fpBinlog = some ⟨l, true⟩)
    (hc : ∀ c ∈ w.tree.content l, c ≠ [] ∧ IndexTerminated c)
    (hk : (session cfg w cs).fpBinlog = some ⟨k, true⟩)
    (hd : ∀ d ∈ (session cfg w cs).tree.content k, (d.length : ℤ) ≤ INT_MAX)
    (hroom : Meets (writeStep cfg)
      (fun w c => w.binlogFileSize + c.text.length < SYNC_BINLOG_FILE_MAX_SIZE) w cs) :
    SessionKept cfg w cs := by
  refine ⟨hroom, fun l' c hs' hc' => ?_, fun k' d hk' hd' => ?_⟩
  · rw [hs] at hs'
    cases hs'
    obtain ⟨hne, hterm⟩ := hc c hc'
    exact ⟨hne, .inr hterm⟩
  · rw [hk] at hk'
    cases hk'
    exact hd d hd'

/-- The store behind a start on an index file whose number has its end in it. -/
def terminatedWorld : World :=
  (storageSyncInit sampleConfig {} (.initial (sampleDirs.setFile sampleLogLoc (ascii "0\n")) [])).1

theorem terminatedWorld_recovered : Meets (sessionStep sampleConfig) (Recovers sampleConfig)
    terminatedWorld [[sampleCall, sampleCall], [sampleCall]] := by
  refine sessions_recovered {} (sampleDirs.setFile sampleLogLoc (ascii "0\n")) [] _ rfl
    (by decide +kernel) (by decide +kernel) ⟨?_, ?_, trivial⟩
  · exact sessionKept_of_content (l := sampleLogLoc) (k := sampleLogLoc)
      (by decide +kernel) (by decide +kernel) (by decide +kernel) (by decide +kernel)
      ⟨by decide +kernel, by decide +kernel, trivial⟩
  · exact sessionKept_of_content (l := sampleLogLoc) (k := sampleLogLoc)
      (by decide +kernel) (by decide +kernel) (by decide +kernel) (by decide +kernel)
      ⟨by decide +kernel, trivial⟩

/-- A record right behind the digits of the index: the next start reads its time as the index. -/
theorem sampleWorld_not_recovered : (storageSyncInit sampleConfig {} (.initial sampleTree [])).2 = 0 ∧
    sampleWorld.fpBinlog ≠ none ∧ ¬ Recovers sampleConfig sampleWorld [sampleCall] := by
  refine ⟨by decide +kernel, by decide +kernel, fun h => ?_⟩
  exact absurd h.index (by decide +kernel)

end Recovery

end DemoStorage.BinlogRestart
