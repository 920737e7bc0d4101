import DemoStorage.BinlogOutcomes
import DemoStorage.ConditionedRuns

/-!
# Runs of binlog writes and the size limit

In a well-formed state the stream appends to the file that the index names, and the size
counter is the length of that file. A write keeps to the contract of the log exactly when
the record stays below the size limit and no earlier index names the same file: the
rotation behind the limit closes a null stream and opens nothing to write to.
-/

namespace DemoStorage.BinlogRotation
open ByteStrings LexicalPaths PosixFileTree DaemonState BinlogWriting BinlogOutcomes
open ConditionedRuns

/-- A call of `storage_binlog_write` with the failures and the clock it meets. -/
structure BinlogCall where
  faults : BinlogFaults
  op : Byte
  filename : Bytes

def BinlogCall.record (c : BinlogCall) : LogRecord := logRecord c.faults c.op c.filename

def BinlogCall.text (c : BinlogCall) : Bytes := recordText c.record

def write (cfg : Config) (w : World) (c : BinlogCall) : World × Option Errno :=
  storageBinlogWrite cfg c.faults w c.op c.filename

def writeStep (cfg : Config) (w : World) (c : BinlogCall) : World := (write cfg w c).1

/-- Content of the binlog file with an index. -/
def binlogContent (cfg : Config) (w : World) (index : ℤ) : Option Bytes :=
  match w.locate (binlogFilename cfg index) with
  | .ok l => w.tree.content l
  | .error _ => none

/-- The binlog files up to the current one, in index order. -/
def binlogText (cfg : Config) (w : World) : Bytes :=
  (List.range (w.binlogIndex.toNat + 1)).flatMap fun i : ℕ => (binlogContent cfg w i).getD []

/-- The stream appends to the file the index names and the counter is its length. -/
structure WellFormed (cfg : Config) (w : World) : Prop where
  index : 0 ≤ w.binlogIndex
  stream : ∃ l c, w.fpBinlog = some ⟨l, true⟩ ∧
    w.locate (getWritableBinlogFilename cfg w) = .ok l ∧ w.tree.content l = some c ∧
    w.binlogFileSize = c.length ∧ (c.length : ℤ) < SYNC_BINLOG_FILE_MAX_SIZE

/-- What one write owes. -/
structure Written (cfg : Config) (w : World) (c : BinlogCall) : Prop where
  result : (write cfg w c).2 = some 0
  appends : ∀ l old, w.fpBinlog = some ⟨l, true⟩ → w.tree.content l = some old →
    (write cfg w c).1.tree.content l = some (old ++ c.text)
  earlier : ∀ i, 0 ≤ i → i < w.binlogIndex →
    binlogContent cfg (write cfg w c).1 i = binlogContent cfg w i
  stream : w.nullStreamUse = false → (write cfg w c).1.nullStreamUse = false
  wellFormed : WellFormed cfg (write cfg w c).1
  index : (write cfg w c).1.binlogIndex = w.binlogIndex +
    if SYNC_BINLOG_FILE_MAX_SIZE ≤ w.binlogFileSize + c.text.length then 1 else 0

/-- What a run of writes owes: each write its part, and the files in index order the records. -/
structure RunWritten (cfg : Config) (w : World) (cs : List BinlogCall) : Prop where
  each : Meets (writeStep cfg) (Written cfg) w cs
  text : binlogText cfg (run (writeStep cfg) w cs) =
    binlogText cfg w ++ cs.flatMap BinlogCall.text

/-- No earlier index names the file of the current one. -/
def Distinct (cfg : Config) (w : World) : Prop :=
  ∀ i, 0 ≤ i → i < w.binlogIndex → ∀ l, w.locate (binlogFilename cfg i) = .ok l →
    w.locate (getWritableBinlogFilename cfg w) ≠ .ok l

/-- Room for some records below the size limit. -/
def Room (w : World) (cs : List BinlogCall) : Prop :=
  w.binlogFileSize + (cs.flatMap BinlogCall.text).length < SYNC_BINLOG_FILE_MAX_SIZE

theorem locate_ok_of_isDir {w w' : World} (hd : ∀ l, w'.tree.isDir l = w.tree.isDir l)
    (hc : w'.cwd = w.cwd) (p : Bytes) (l : Loc) : w'.locate p = .ok l ↔ w.locate p = .ok l := by
  rw [World.locate, World.locate, hc]
  exact FileTree.locate_ok_congr hd w.cwd p l

/-- The state behind a record that was logged. -/
def logged (w : World) (l : Loc) (c : BinlogCall) : World :=
  { flushed w l c.text with written := w.written ++ [c.record] }

theorem logged_locate (w : World) (l : Loc) (c : BinlogCall) (p : Bytes) (k : Loc) :
    (logged w l c).locate p = .ok k ↔ w.locate p = .ok k :=
  @locate_ok_of_isDir w (logged w l c) (fun _ => FileTree.isDir_appendFile _ _ _ _) rfl p k

theorem binlogContent_logged {cfg : Config} {w : World} {l : Loc} {old : Bytes}
    (hc : w.tree.content l = some old) (c : BinlogCall) (i : ℤ) :
    binlogContent cfg (logged w l c) i =
      if w.locate (binlogFilename cfg i) = .ok l then some (old ++ c.text)
      else binlogContent cfg w i := by
  have hcontent (k : Loc) : (logged w l c).tree.content k =
      if k = l then some (old ++ c.text) else w.tree.content k := FileTree.content_appendFile hc _ k
  have hl := logged_locate w l c (binlogFilename cfg i)
  unfold binlogContent
  cases h1 : (logged w l c).locate (binlogFilename cfg i) with
  | ok k =>
    have h2 := (hl k).mp h1
    simp [h2, hcontent]
  | error e =>
    cases h2 : w.locate (binlogFilename cfg i) with
    | ok k => simp [(hl k).mpr h2] at h1
    | error e' => simp

section OneWrite
variable {cfg : Config} {w : World} {c : BinlogCall}

/-- Below the limit a quiet write logs its record. -/
theorem write_eq_logged (hq : Quiet c.faults) (h : WellFormed cfg w) {l : Loc}
    (hs : w.fpBinlog = some ⟨l, true⟩)
    (hroom : w.binlogFileSize + c.text.length < SYNC_BINLOG_FILE_MAX_SIZE) :
    write cfg w c = (logged w l c, some 0) := by
  obtain ⟨l', old, hs', -, -, hsize, -⟩ := h.stream
  simp only [SYNC_BINLOG_FILE_MAX_SIZE] at hroom
  have hnext : nextSize w c.text.length = w.binlogFileSize + c.text.length :=
    wrap32_eq (by omega) (by omega)
  refine storageBinlogWrite_quiet hq hs c.op c.filename ?_ ?_
  · simp only [INT_MAX]
    change (c.text.length : ℤ) ≤ 2147483647
    omega
  · change nextSize w c.text.length < _
    rw [hnext]
    simpa [SYNC_BINLOG_FILE_MAX_SIZE] using hroom

theorem written_of_room (hq : Quiet c.faults) (h : WellFormed cfg w) (hd : Distinct cfg w)
    (hroom : w.binlogFileSize + c.text.length < SYNC_BINLOG_FILE_MAX_SIZE) : Written cfg w c := by
  obtain ⟨l, old, hs, hl, hc, hsize, hlt⟩ := h.stream
  have he := write_eq_logged hq h hs hroom
  have hcontent (k : Loc) : (logged w l c).tree.content k =
      if k = l then some (old ++ c.text) else w.tree.content k := FileTree.content_appendFile hc _ k
  have hnext : (logged w l c).binlogFileSize = w.binlogFileSize + c.text.length := by
    simp only [SYNC_BINLOG_FILE_MAX_SIZE] at hroom
    exact wrap32_eq (by omega) (by omega)
  refine ⟨by rw [he], ?_, ?_, ?_, ?_, ?_⟩
  · intro l' old' hs' hc'
    rw [hs] at hs'
    cases hs'
    rw [hc] at hc'
    cases hc'
    rw [he, hcontent, if_pos rfl]
  · intro i h0 hi
    rw [he, binlogContent_logged hc, if_neg]
    exact fun hli => hd i h0 hi l hli hl
  · rw [he]
    exact id
  · rw [he]
    refine ⟨h.index, l, old ++ c.text, hs, (logged_locate w l c _ l).mpr hl, ?_, ?_, ?_⟩
    · rw [hcontent, if_pos rfl]
    · rw [hnext, hsize, List.length_append]
      push_cast
      rfl
    · rw [List.length_append]
      push_cast
      omega
  · rw [he, if_neg (not_le.mpr hroom), add_zero]
    rfl

/-- A write that keeps to its contract logged the record, below the limit. -/
theorem Written.eq_logged (hw : Written cfg w c) {l : Loc}
    (hs : w.fpBinlog = some ⟨l, true⟩) : write cfg w c = (logged w l c, some 0) := by
  have hout := storageBinlogWrite_outcome cfg c.faults w c.op c.filename
  have hr := hw.result
  unfold write at hr ⊢
  generalize storageBinlogWrite cfg c.faults w c.op c.filename = r at hout hr
  obtain ⟨w', r⟩ := r
  dsimp only at hout hr
  subst hr
  cases hout with
  | refused _ hr => exact absurd rfl hr
  | torn _ _ _ _ _ hr => exact absurd rfl hr
  | logged s hs' =>
    rw [hs] at hs'
    cases hs'
    rfl
  | notUnlocked _ _ _ _ _ hr => exact absurd rfl hr
  | rotated _ _ _ _ hr => exact absurd rfl hr

theorem room_of_written (hw : Written cfg w c) (h : WellFormed cfg w) :
    Distinct cfg w ∧ w.binlogFileSize + c.text.length < SYNC_BINLOG_FILE_MAX_SIZE := by
  obtain ⟨l, old, hs, hl, hc, hsize, hlt⟩ := h.stream
  have he := hw.eq_logged hs
  have hnew : (logged w l c).tree.content l = some (old ++ c.text) := by
    have := hw.appends l old hs hc
    rwa [he] at this
  constructor
  · intro i h0 hi k hk hcur
    rw [hl] at hcur
    cases hcur
    have hi' := hw.earlier i h0 hi
    rw [he, binlogContent_logged hc, if_pos hk] at hi'
    simp only [binlogContent, hk, hc, Option.some.injEq, List.append_right_eq_self] at hi'
    exact recordText_ne_nil _ hi'
  · obtain ⟨l', c', hs', -, hc', -, hlt'⟩ := hw.wellFormed.stream
    rw [he] at hs' hc'
    have : (logged w l c).fpBinlog = some ⟨l, true⟩ := hs
    rw [this] at hs'
    cases hs'
    rw [hnew] at hc'
    cases hc'
    rw [List.length_append] at hlt'
    push_cast at hlt'
    omega

end OneWrite

section Runs
variable {cfg : Config} {w : World}

theorem binlogText_logged (h : WellFormed cfg w) (hd : Distinct cfg w) {l : Loc}
    (hs : w.fpBinlog = some ⟨l, true⟩) (c : BinlogCall) :
    binlogText cfg (logged w l c) = binlogText cfg w ++ c.text := by
  obtain ⟨l', old, hs', hl, hc, -, -⟩ := h.stream
  rw [hs] at hs'
  cases hs'
  have hindex : ((w.binlogIndex.toNat : ℕ) : ℤ) = w.binlogIndex := Int.toNat_of_nonneg h.index
  have hl' : w.locate (binlogFilename cfg w.binlogIndex) = .ok l := hl
  have hcur : (binlogContent cfg (logged w l c) w.binlogIndex).getD [] =
      (binlogContent cfg w w.binlogIndex).getD [] ++ c.text := by
    rw [binlogContent_logged hc, if_pos hl']
    simp [binlogContent, hl', hc]
  have hprev : ((List.range w.binlogIndex.toNat).flatMap fun i : ℕ =>
      (binlogContent cfg (logged w l c) i).getD []) =
      (List.range w.binlogIndex.toNat).flatMap fun i : ℕ => (binlogContent cfg w i).getD [] := by
    refine List.flatMap_congr fun i hi => ?_
    have := List.mem_range.mp hi
    rw [binlogContent_logged hc, if_neg fun hli => hd i (by omega) (by omega) l hli hl]
  have hi : (logged w l c).binlogIndex = w.binlogIndex := rfl
  simp only [binlogText, hi, List.range_succ, List.flatMap_append, List.flatMap_cons,
    List.flatMap_nil, List.append_nil, hindex, hprev, hcur, List.append_assoc]

theorem Distinct.logged (hd : Distinct cfg w) (l : Loc) (c : BinlogCall) :
    Distinct cfg (logged w l c) := by
  intro i h0 hi k hk hcur
  rw [logged_locate] at hk hcur
  exact hd i h0 hi k hk hcur

instance (w : World) (cs : List BinlogCall) : Decidable (Room w cs) :=
  inferInstanceAs (Decidable (_ < _))

theorem room_cons (c : BinlogCall) (cs : List BinlogCall) : Room w (c :: cs) ↔
    w.binlogFileSize + c.text.length + (cs.flatMap BinlogCall.text).length <
      SYNC_BINLOG_FILE_MAX_SIZE := by
  simp only [Room, List.flatMap_cons, List.length_append]
  push_cast
  rw [add_assoc]

/-- A run of quiet writes keeps to the contract exactly when it stays below the limit. -/
theorem runWritten_iff (h : WellFormed cfg w) {cs : List BinlogCall}
    (hq : ∀ c ∈ cs, Quiet c.faults) :
    RunWritten cfg w cs ↔ cs = [] ∨ Distinct cfg w ∧ Room w cs := by
  induction cs generalizing w with
  | nil => exact ⟨fun _ => .inl rfl, fun _ => ⟨trivial, by simp⟩⟩
  | cons c cs ih =>
    obtain ⟨l, old, hs, -, -, -, hlt⟩ := h.stream
    have hqc := hq c List.mem_cons_self
    have hqs : ∀ c ∈ cs, Quiet c.faults := fun c hc => hq c (List.mem_cons_of_mem _ hc)
    -- what both directions know once the first write has been logged
    have hnext (hw : Written cfg w c) : writeStep cfg w c = logged w l c ∧
        WellFormed cfg (logged w l c) ∧ Distinct cfg w ∧
        (logged w l c).binlogFileSize = w.binlogFileSize + c.text.length := by
      have he := hw.eq_logged hs
      obtain ⟨hd, hroom⟩ := room_of_written hw h
      have hsize : 0 ≤ w.binlogFileSize := by
        obtain ⟨_, _, -, -, -, hsize, -⟩ := h.stream
        omega
      refine ⟨by rw [writeStep, he], by simpa [he] using hw.wellFormed, hd, wrap32_eq (by omega) ?_⟩
      simp only [SYNC_BINLOG_FILE_MAX_SIZE] at hroom
      omega
    constructor
    · rintro ⟨⟨hw, hrest⟩, htext⟩
      obtain ⟨he, hwf, hd, hsize⟩ := hnext hw
      obtain ⟨-, hroom⟩ := room_of_written hw h
      refine .inr ⟨hd, (room_cons c cs).mpr ?_⟩
      rw [he] at hrest
      rw [run_cons, he, List.flatMap_cons, ← List.append_assoc, ← binlogText_logged h hd hs] at htext
      obtain rfl | ⟨-, hr⟩ := (ih hwf hqs).mp ⟨hrest, htext⟩
      · simpa using hroom
      · rwa [Room, hsize] at hr
    · rintro (hnil | ⟨hd, hroom⟩)
      · cases hnil
      · rw [room_cons] at hroom
        have hw := written_of_room hqc h hd (by omega)
        obtain ⟨he, hwf, -, hsize⟩ := hnext hw
        have hrest := (ih hwf hqs).mpr (.inr ⟨hd.logged l c, by rwa [Room, hsize]⟩)
        refine ⟨⟨hw, by rw [he]; exact hrest.each⟩, ?_⟩
        rw [run_cons, he, hrest.text, binlogText_logged h hd hs, List.flatMap_cons,
          List.append_assoc]

/-- A second binlog file with `n` bytes, open for appending. -/
def filledWorld (n : ℕ) : World :=
  let file (name : String) : Loc := [ascii "b", ascii "data", ascii "sync", ascii name]
  let tree := (sampleDirs.setFile (file "binlog.000") (ascii "0 D x\n")).setFile
    (file "binlog.001") (List.replicate n 65)
  { World.initial tree [] with
    binlogIndex := 1
    fpBinlog := some ⟨file "binlog.001", true⟩
    binlogFileSize := n }

private theorem filledWorld_locate (n : ℕ) (p : Bytes) (l : Loc) :
    (filledWorld n).locate p = .ok l ↔ sampleDirs.locate [] p = .ok l :=
  FileTree.locate_ok_congr (fun l => by simp [filledWorld, World.initial]) [] p l

theorem filledWorld_wellFormed {n : ℕ} (h : (n : ℤ) < SYNC_BINLOG_FILE_MAX_SIZE) :
    WellFormed sampleConfig (filledWorld n) := by
  have hindex : (filledWorld n).binlogIndex = 1 := rfl
  refine ⟨by rw [hindex]; decide, [ascii "b", ascii "data", ascii "sync", ascii "binlog.001"],
    List.replicate n 65, rfl, ?_, ?_, ?_, ?_⟩
  · rw [filledWorld_locate, getWritableBinlogFilename, hindex]
    decide +kernel
  · have hh : sampleDirs.holds [ascii "b", ascii "data", ascii "sync", ascii "binlog.001"] = true := by
      decide +kernel
    simp only [filledWorld, World.initial]
    rw [FileTree.content_setFile (by rw [FileTree.holds_setFile]; exact hh), if_pos rfl]
  · rw [List.length_replicate]
    rfl
  · rw [List.length_replicate]
    exact h

def sampleCall : BinlogCall := ⟨{ time := 1200000000 }, STORAGE_OP_TYPE_SOURCE_DELETE_FILE, ascii "x"⟩

theorem sampleCall_quiet : Quiet sampleCall.faults := ⟨rfl, rfl, rfl, rfl⟩

theorem filledWorld_runWritten : RunWritten sampleConfig (filledWorld 10) [sampleCall, sampleCall] := by
  refine (runWritten_iff (filledWorld_wellFormed (by decide)) ?_).mpr (.inr ⟨?_, by decide⟩)
  · simpa using sampleCall_quiet
  · intro i h0 hi l hl hcur
    obtain rfl : i = 0 := by
      have : i < 1 := hi
      omega
    rw [filledWorld_locate] at hl hcur
    rw [← hcur] at hl
    exact absurd hl (by decide +kernel)

/-- One byte below the limit a well-formed log loses the next record's write. -/
theorem filledWorld_not_runWritten : WellFormed sampleConfig (filledWorld 1073741823) ∧
    Quiet sampleCall.faults ∧ ¬ RunWritten sampleConfig (filledWorld 1073741823) [sampleCall] := by
  refine ⟨filledWorld_wellFormed (by decide), sampleCall_quiet, fun h => ?_⟩
  have hroom := (room_of_written h.each.1 (filledWorld_wellFormed (by decide))).2
  have hlen : sampleCall.text.length = 15 := by decide
  rw [hlen] at hroom
  exact absurd hroom (by decide)

end Runs

end DemoStorage.BinlogRotation
