import DemoStorage.BinlogWriting

/-!
# What one binlog write can do

Every call of `storage_binlog_write` is one of eight outcomes, each with the state it
leaves; in some of them the process dies. Rotation never succeeds: the file that is full is closed
as a null stream, and behind that the next file would be opened for reading right after it was
found missing or unlinked.
-/

namespace DemoStorage.BinlogOutcomes
open ByteStrings LexicalPaths PosixFileTree DaemonState BinlogWriting

/-- The state once a text has reached the end of the log file. -/
def appended (w : World) (l : Loc) (text : Bytes) : World :=
  { w with tree := w.tree.appendFile l text }

/-- The size counter behind a record of `n` bytes. -/
def nextSize (w : World) (n : ℕ) : ℤ := wrap32 (w.binlogFileSize + n)

/-- The state behind a record that was written and flushed. -/
def flushed (w : World) (l : Loc) (text : Bytes) : World :=
  { appended w l text with binlogFileSize := nextSize w text.length }

/-- The outcomes of writing a record, with the state and the result of each. -/
inductive WriteOutcome (cfg : Config) (f : BinlogFaults) (w : World) (record : LogRecord) :
    World → Option Errno → Prop where
  | nullStream (hs : w.fpBinlog = none) :
      WriteOutcome cfg f w record { w with nullStreamUse := true } none
  | refused (r : Errno) (hr : r ≠ 0) : WriteOutcome cfg f w record w (some r)
  | died : WriteOutcome cfg f w record { w with killed := true } none
  | torn (s : Stream) (hs : w.fpBinlog = some s) (k : ℕ) (hk : f.fflush = some k) (r : Errno)
      (hr : r ≠ 0) :
      WriteOutcome cfg f w record (appended w s.loc ((recordText record).take k)) (some r)
  | logged (s : Stream) (hs : w.fpBinlog = some s) (ha : s.append = true)
      (hsize : nextSize w (recordText record).length < SYNC_BINLOG_FILE_MAX_SIZE) :
      WriteOutcome cfg f w record
        { flushed w s.loc (recordText record) with written := w.written ++ [record] } (some 0)
  | notUnlocked (s : Stream) (hs : w.fpBinlog = some s) (hu : f.unlock = true)
      (hsize : nextSize w (recordText record).length < SYNC_BINLOG_FILE_MAX_SIZE)
      (r : Errno) (hr : r ≠ 0) :
      WriteOutcome cfg f w record (flushed w s.loc (recordText record)) (some r)
  | rotated (s : Stream) (hs : w.fpBinlog = some s)
      (hsize : SYNC_BINLOG_FILE_MAX_SIZE ≤ nextSize w (recordText record).length)
      (r : Option Errno) (hr : r ≠ some 0) :
      WriteOutcome cfg f w record
        (rotateBinlog cfg f.rotate (flushed w s.loc (recordText record))).1 r

theorem unlinkExisting_not_readable (fault : Option Errno) (w : World) (full : Bytes)
    (h : (unlinkExisting fault w full).2.isSome = false) (b : Bytes) :
    (unlinkExisting fault w full).1.tree.openRead (unlinkExisting fault w full).1.cwd full ≠
      .ok b := by
  by_cases hx : w.tree.access w.cwd full = true
  · have he : unlinkExisting fault w full = unlink fault (w.touch full) full := by
      simp [unlinkExisting, fileExists, hx]
    rw [he] at h ⊢
    cases fault with
    | some e => cases h
    | none =>
      cases hu : w.tree.unlink w.cwd full with
      | error e => simp [unlink, hu] at h
      | ok t => simpa [unlink, hu] using FileTree.openRead_of_unlink hu b
  · have he : unlinkExisting fault w full = (w.touch full, none) := by
      simp [unlinkExisting, fileExists, hx]
    rw [he]
    intro hb
    obtain ⟨l, hl, hc⟩ := FileTree.openRead_ok hb
    have hn : w.tree.node l = some (.file b) := FileTree.content_eq_some.mp hc
    exact hx (FileTree.access_eq_true.mpr ⟨l, hl, by simp [hn]⟩)

theorem openNextWritableBinlog_ne_zero (cfg : Config) (f : RotateFaults) (w : World) :
    (openNextWritableBinlog cfg f w).2 ≠ 0 := by
  have hne : errnoOr f.errno ENOENT ≠ 0 := errnoOr_ENOENT_ne_zero _
  simp only [openNextWritableBinlog]
  generalize (storageSyncDestroy f.destroy w).1 = v
  have hclear := unlinkExisting_not_readable f.unlink v (getWritableBinlogFilename cfg v)
  cases hs : (unlinkExisting f.unlink v (getWritableBinlogFilename cfg v)).2.isSome with
  | true => simpa using hne
  | false =>
    simp only [Bool.false_eq_true, if_false]
    split
    · rename_i hr _
      exact absurd hr (hclear hs _)
    · exact hne

theorem rotateBinlog_ne_zero (cfg : Config) (f : RotateFaults) (w : World) :
    (rotateBinlog cfg f w).2 ≠ some 0 := by
  simp only [rotateBinlog]
  generalize writeToBinlogIndex cfg f.index { w with binlogIndex := wrap32 (w.binlogIndex + 1) } = x
  obtain ⟨v, written⟩ := x
  by_cases h : written = 0
  · have hne := openNextWritableBinlog_ne_zero cfg f v
    simp only [h, if_true]
    split_ifs <;> simp [hne]
  · simp [h]

/-- The record is handed to the stream. -/
def Prints (f : BinlogFaults) (s : Stream) (text : Bytes) : Prop :=
  f.fprintf = false ∧ s.append = true ∧ (text.length : ℤ) ≤ INT_MAX

/-- What happens under the file lock. -/
theorem appendRecord_cases (cfg : Config) (f : BinlogFaults) (w : World) (s : Stream)
    (text : Bytes) :
    (¬ Prints f s text ∧ appendRecord cfg f w s text = ({ w with killed := true }, none)) ∨
    (Prints f s text ∧ ∃ k r, f.fflush = some k ∧ r ≠ 0 ∧
      appendRecord cfg f w s text = (appended w s.loc (text.take k), some r)) ∨
    (Prints f s text ∧ f.fflush = none ∧ nextSize w text.length < SYNC_BINLOG_FILE_MAX_SIZE ∧
      appendRecord cfg f w s text = (flushed w s.loc text, some 0)) ∨
    (Prints f s text ∧ f.fflush = none ∧ SYNC_BINLOG_FILE_MAX_SIZE ≤ nextSize w text.length ∧
      appendRecord cfg f w s text = rotateBinlog cfg f.rotate (flushed w s.loc text)) := by
  have hne : errnoOr f.errno ENOENT ≠ 0 := errnoOr_ENOENT_ne_zero _
  have hprints : (f.fprintf = true ∨ s.append = false ∨ INT_MAX < text.length) ↔
      ¬ Prints f s text := by
    simp [Prints, imp_iff_not_or]
  unfold appendRecord
  by_cases hp : Prints f s text
  · rw [if_neg (hprints.not.mpr (not_not.mpr hp))]
    cases hf : f.fflush with
    | some k => exact .inr (.inl ⟨hp, k, _, rfl, hne, rfl⟩)
    | none =>
      dsimp only
      split_ifs with hsize
      · exact .inr (.inr (.inr ⟨hp, rfl, hsize, rfl⟩))
      · exact .inr (.inr (.inl ⟨hp, rfl, not_le.mp hsize, rfl⟩))
  · rw [if_pos (hprints.mpr hp)]
    exact .inl ⟨hp, rfl⟩

/-- Every binlog write has one of the outcomes. -/
theorem storageBinlogWrite_outcome (cfg : Config) (f : BinlogFaults) (w : World) (opType : Byte)
    (filename : Bytes) : WriteOutcome cfg f w (logRecord f opType filename)
      (storageBinlogWrite cfg f w opType filename).1
      (storageBinlogWrite cfg f w opType filename).2 := by
  have hne (d : Errno) : errnoOr d ENOENT ≠ 0 := errnoOr_ENOENT_ne_zero _
  unfold storageBinlogWrite
  split
  · rename_i hs
    exact .nullStream hs
  · rename_i s hs
    dsimp only
    by_cases hlock : f.lock = true
    · simpa only [hlock, if_true] using .refused _ (hne _)
    · rw [if_neg hlock]
      generalize logRecord f opType filename = record
      obtain ⟨-, he⟩ | ⟨-, k, r, hk, hr, he⟩ | ⟨hp, -, hsize, he⟩ | ⟨-, -, hsize, he⟩ :=
        appendRecord_cases cfg f w s (recordText record)
      · simp only [he]
        exact .died
      · simp only [he, hr, if_false]
        split_ifs
        · exact .torn s hs k hk _ (hne _)
        · exact .torn s hs k hk _ hr
      · simp only [he, if_true]
        split_ifs with hu
        · exact .notUnlocked s hs hu hsize _ (hne _)
        · exact .logged s hs hp.2.1 hsize
      · have hr := rotateBinlog_ne_zero cfg f.rotate (flushed w s.loc (recordText record))
        have hrotated := @WriteOutcome.rotated cfg f w record s hs hsize
        simp only [he]
        generalize rotateBinlog cfg f.rotate (flushed w s.loc (recordText record)) = x at hr hrotated ⊢
        obtain ⟨v, r⟩ := x
        cases r with
        | none => exact hrotated none (by simp)
        | some r =>
          have hr : r ≠ 0 := fun h => hr (congrArg some h)
          simp only [hr, if_false]
          split_ifs
          · exact hrotated _ (by simpa using hne _)
          · exact hrotated _ (by simpa using hr)

/-- The index file can be opened and written. -/
def IndexWritten (cfg : Config) (f : IndexFaults) (w : World) : Prop :=
  f.fopen = false ∧ f.fprintf = false ∧
    ∃ l, w.locate (binlogIndexFilename cfg) = .ok l ∧ w.tree.holds l = true

/-- The process dies in the write of a record: it has no stream, the record cannot be printed, or
the record fills the file and the index can be written. -/
def Dies (cfg : Config) (f : BinlogFaults) (w : World) (record : LogRecord) : Prop :=
  ∀ s, w.fpBinlog = some s → f.lock = false ∧ (Prints f s (recordText record) →
    f.fflush = none ∧ SYNC_BINLOG_FILE_MAX_SIZE ≤ nextSize w (recordText record).length ∧
      IndexWritten cfg f.rotate.index w)

theorem writeToBinlogIndex_eq_zero {cfg : Config} {f : IndexFaults} {w : World} :
    (writeToBinlogIndex cfg f w).2 = 0 ↔ IndexWritten cfg f w := by
  have hne : errnoOr f.errno ENOENT ≠ 0 := errnoOr_ENOENT_ne_zero _
  cases hf : f.fopen with
  | true => simp [writeToBinlogIndex, IndexWritten, hf, hne]
  | false =>
    cases ho : w.tree.openWrite w.cwd (binlogIndexFilename cfg) true with
    | error e =>
      refine iff_of_false (by simpa [writeToBinlogIndex, hf, ho] using hne) ?_
      rintro ⟨-, -, l, hl, hh⟩
      rw [World.locate] at hl
      rw [FileTree.openWrite_truncate hl hh] at ho
      cases ho
    | ok x =>
      obtain ⟨hl, hh, -⟩ := FileTree.openWrite_ok ho
      cases hp : f.fprintf with
      | true => simp [writeToBinlogIndex, IndexWritten, hf, ho, hp, hne]
      | false =>
        exact iff_of_true (by simp [writeToBinlogIndex, hf, ho, hp]) ⟨hf, hp, x.1, hl, hh⟩

/-- What decides about the index file are the directories. -/
theorem IndexWritten.congr {cfg : Config} {f : IndexFaults} {w v : World} (hcwd : v.cwd = w.cwd)
    (hd : ∀ l, v.tree.isDir l = w.tree.isDir l) : IndexWritten cfg f v ↔ IndexWritten cfg f w := by
  simp only [IndexWritten, World.locate, hcwd, FileTree.locate_ok_congr hd, FileTree.holds, hd]

theorem rotateBinlog_eq_none {cfg : Config} {f : RotateFaults} {w : World} :
    (rotateBinlog cfg f w).2 = none ↔ w.fpBinlog.isSome = true ∧ IndexWritten cfg f.index w := by
  have hindex : (writeToBinlogIndex cfg f.index
      { w with binlogIndex := wrap32 (w.binlogIndex + 1) }).2 = 0 ↔ IndexWritten cfg f.index w := by
    rw [writeToBinlogIndex_eq_zero]
    exact IndexWritten.congr rfl fun _ => rfl
  simp only [← hindex, rotateBinlog]
  split_ifs with h
  · exact iff_of_true rfl h.symm
  · exact iff_of_false (by simp) fun hd => h hd.symm

/-- The writes that do not return. -/
theorem storageBinlogWrite_eq_none {cfg : Config} {f : BinlogFaults} {w : World} {opType : Byte}
    {filename : Bytes} : (storageBinlogWrite cfg f w opType filename).2 = none ↔
      Dies cfg f w (logRecord f opType filename) := by
  unfold storageBinlogWrite Dies
  cases hs : w.fpBinlog with
  | none => exact iff_of_true rfl fun s h => nomatch h
  | some s =>
    simp only [Option.some.injEq, forall_eq']
    generalize recordText (logRecord f opType filename) = text
    by_cases hlock : f.lock = true
    · exact iff_of_false (by simp [hlock]) fun h => by simp [hlock] at h
    · have hlock : f.lock = false := by simpa using hlock
      have hreturns (v : World) (r : Errno) :
          (if f.unlock = true then (v, some (errnoOr f.unlockErrno ENOENT))
            else if r = 0 then ({ v with written := v.written ++ [logRecord f opType filename] }, some 0)
            else (v, some r)).2 ≠ none := by
        split_ifs <;> simp
      simp only [hlock, Bool.false_eq_true, if_false, true_and]
      obtain ⟨hp, he⟩ | ⟨hp, k, r, hk, -, he⟩ | ⟨hp, -, hsize, he⟩ | ⟨hp, hf, hsize, he⟩ :=
        appendRecord_cases cfg f w s text
      · rw [he]
        exact iff_of_true rfl fun h => absurd h hp
      · rw [he]
        exact iff_of_false (hreturns _ _) fun h => by simp [hk] at h; exact h hp
      · rw [he]
        exact iff_of_false (hreturns _ _) fun h => absurd (h hp).2.1 (not_le.mpr hsize)
      · have hdies := @rotateBinlog_eq_none cfg f.rotate (flushed w s.loc text)
        have hopen : (flushed w s.loc text).fpBinlog.isSome = true := by
          simp [flushed, appended, hs]
        have hindex : IndexWritten cfg f.rotate.index (flushed w s.loc text) ↔
            IndexWritten cfg f.rotate.index w :=
          IndexWritten.congr rfl fun _ => FileTree.isDir_appendFile _ _ _ _
        simp only [hopen, hindex, true_and] at hdies
        rw [he]
        generalize rotateBinlog cfg f.rotate (flushed w s.loc text) = x at hdies ⊢
        obtain ⟨v, _ | r⟩ := x
        · exact iff_of_true rfl fun _ => ⟨hf, hsize, hdies.mp rfl⟩
        · refine iff_of_false (hreturns v r) fun h => ?_
          cases hdies.mpr (h hp).2.2

/-- Nothing of the text reaches the file. -/
def Unprinted (f : BinlogFaults) (text : Bytes) : Prop :=
  f.lock = true ∨ f.fprintf = true ∨ INT_MAX < text.length ∨ f.fflush = some 0

instance (f : BinlogFaults) (text : Bytes) : Decidable (Unprinted f text) :=
  inferInstanceAs (Decidable (_ ∨ _))

theorem storageBinlogWrite_eq_of_unprinted (cfg : Config) {f : BinlogFaults} {w : World} {l : Loc}
    (hs : w.fpBinlog = some ⟨l, true⟩) {opType : Byte} {filename : Bytes}
    (h : Unprinted f (recordText (logRecord f opType filename))) : ∃ v r, r ≠ some 0 ∧
      storageBinlogWrite cfg f w opType filename = (v, r) ∧
        (v = w ∨ v = { w with killed := true } ∨ v = appended w l []) := by
  have hne (d : Errno) : errnoOr d ENOENT ≠ 0 := errnoOr_ENOENT_ne_zero _
  simp only [storageBinlogWrite, hs]
  by_cases hlock : f.lock = true
  · exact ⟨_, _, by simpa using hne _, if_pos hlock, .inl rfl⟩
  · rw [if_neg hlock]
    have hflush (hp : Prints f ⟨l, true⟩ (recordText (logRecord f opType filename))) :
        f.fflush = some 0 := by
      obtain hbad | hbad | hbad | hbad := h
      · exact absurd hbad hlock
      · simp [hp.1] at hbad
      · exact absurd hp.2.2 (not_le.mpr hbad)
      · exact hbad
    obtain ⟨-, he⟩ | ⟨hp, k, r, hk, hr, he⟩ | ⟨hp, hf, -, -⟩ | ⟨hp, hf, -, -⟩ :=
      appendRecord_cases cfg f w ⟨l, true⟩ (recordText (logRecord f opType filename))
    · simp only [he]
      exact ⟨_, _, by simp, rfl, .inr (.inl (by rw [hs]))⟩
    · obtain rfl : k = 0 := Option.some.inj (hk.symm.trans (hflush hp))
      simp only [he, hr, if_false, List.take_zero]
      split_ifs
      · exact ⟨_, _, by simpa using hne _, rfl, .inr (.inr rfl)⟩
      · exact ⟨_, _, by simpa using hr, rfl, .inr (.inr rfl)⟩
    · rw [hflush hp] at hf
      cases hf
    · rw [hflush hp] at hf
      cases hf

/-- No call of a binlog write fails for an outside reason. -/
structure Quiet (f : BinlogFaults) : Prop where
  lock : f.lock = false
  fprintf : f.fprintf = false
  fflush : f.fflush = none
  unlock : f.unlock = false

/-- Without outside failures and below the limit a record is logged. -/
theorem storageBinlogWrite_quiet {cfg : Config} {f : BinlogFaults} (hf : Quiet f) {w : World}
    {l : Loc} (hs : w.fpBinlog = some ⟨l, true⟩) (opType : Byte) (filename : Bytes)
    (hlen : ((recordText (logRecord f opType filename)).length : ℤ) ≤ INT_MAX)
    (hsize : nextSize w (recordText (logRecord f opType filename)).length <
      SYNC_BINLOG_FILE_MAX_SIZE) :
    storageBinlogWrite cfg f w opType filename =
      ({ flushed w l (recordText (logRecord f opType filename)) with
        written := w.written ++ [logRecord f opType filename] }, some 0) := by
  have happ : appendRecord cfg f w ⟨l, true⟩ (recordText (logRecord f opType filename)) =
      (flushed w l (recordText (logRecord f opType filename)), some 0) := by
    simp only [appendRecord, hf.fprintf, hf.fflush, not_lt.mpr hlen, Bool.true_eq_false,
      Bool.false_eq_true, or_self, if_false]
    exact if_neg (not_le.mpr hsize)
  unfold storageBinlogWrite
  rw [hs]
  simp only [hf.lock, hf.unlock, happ, Bool.false_eq_true, if_false, if_true]
  rfl

theorem recordText_ne_nil (record : LogRecord) : recordText record ≠ [] := by
  simp [recordText]

end DemoStorage.BinlogOutcomes
