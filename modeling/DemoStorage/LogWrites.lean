import DemoStorage.FileEffects

/-!
# Binlog writes on an open log

The log is a place and the text of the file there. A write either puts its whole record
behind that text, or none of it, or stops in between; whatever is done elsewhere leaves
the log as it is.
-/

namespace DemoStorage.LogWrites
open ByteStrings PosixFileTree DaemonState BinlogWriting BinlogOutcomes FileEffects

/-- The stream appends to a file with the text. -/
structure Holds (l : Loc) (w : World) (text : Bytes) : Prop where
  stream : w.fpBinlog = some ⟨l, true⟩
  content : w.tree.content l = some text

/-- The whole text reaches the file, below the size limit. The call may fail behind that. -/
structure Reaches (f : BinlogFaults) (w : World) (text : Bytes) : Prop where
  lock : f.lock = false
  fprintf : f.fprintf = false
  length : (text.length : ℤ) ≤ INT_MAX
  fflush : ∀ k, f.fflush = some k → text.length ≤ k
  size : nextSize w text.length < SYNC_BINLOG_FILE_MAX_SIZE

/-- The size counter behind a record. -/
def counted (w : World) (record : LogRecord) : World :=
  { w with binlogFileSize := nextSize w (recordText record).length }

/-- A write that was whole: the record is in the file, and only there has anything changed. -/
structure Recorded (l : Loc) (f : BinlogFaults) (record : LogRecord) (w : World) (text : Bytes)
    (v : World) (r : Option Errno) : Prop where
  holds : Holds l v (text ++ recordText record)
  apart : Apart (· = l) w v
  index : v.binlogIndex = w.binlogIndex
  result : r = some 0 ↔ f.fflush = none ∧ f.unlock = false
  size : r = some 0 → v.binlogFileSize = nextSize w (recordText record).length
  written : v.written = if r = some 0 then w.written ++ [record] else w.written

section Writes
variable (cfg : Config) {f : BinlogFaults} {w : World} {l : Loc} {text : Bytes}

/-- What was appended at the place of the log. -/
theorem Holds.appended (h : Holds l w text) (b : Bytes) : Holds l (appended w l b) (text ++ b) := by
  refine ⟨h.stream, ?_⟩
  have := FileTree.content_appendFile h.content b l
  rwa [if_pos rfl] at this

theorem apart_log (w : World) (l : Loc) (b : Bytes) : Apart (· = l) w (appended w l b) :=
  @apart_appended (· = l) w l rfl b

/-- A record that reaches the file. -/
theorem storageBinlogWrite_reaches (h : Holds l w text) {op : Byte} {filename : Bytes}
    (hr : Reaches f w (recordText (logRecord f op filename))) :
    Recorded l f (logRecord f op filename) w text (storageBinlogWrite cfg f w op filename).1
      (storageBinlogWrite cfg f w op filename).2 := by
  have hne (d : Errno) : some (errnoOr d ENOENT) ≠ some 0 := by
    simpa using errnoOr_ENOENT_ne_zero d
  have hhold := h.appended (recordText (logRecord f op filename))
  have hapart := apart_log w l (recordText (logRecord f op filename))
  have hp : Prints f ⟨l, true⟩ (recordText (logRecord f op filename)) :=
    ⟨hr.fprintf, rfl, hr.length⟩
  simp only [storageBinlogWrite, h.stream, hr.lock, Bool.false_eq_true, if_false]
  obtain ⟨hno, -⟩ | ⟨-, k, r, hk, hrne, he⟩ | ⟨-, hf, -, he⟩ | ⟨-, -, hsize, -⟩ :=
    appendRecord_cases cfg f w ⟨l, true⟩ (recordText (logRecord f op filename))
  · exact absurd hp hno
  · rw [List.take_of_length_le (hr.fflush k hk)] at he
    have hrne' : some r ≠ some 0 := by simpa using hrne
    simp only [he, hrne, if_false]
    have hno : ¬ (f.fflush = none ∧ f.unlock = false) := by simp [hk]
    split_ifs
    · exact ⟨hhold, hapart, rfl, iff_of_false (hne _) hno, fun h0 => absurd h0 (hne _),
        (if_neg (hne _)).symm⟩
    · exact ⟨hhold, hapart, rfl, iff_of_false hrne' hno, fun h0 => absurd h0 hrne',
        (if_neg hrne').symm⟩
  · simp only [he, if_true]
    split_ifs with hu
    · have hno : ¬ (f.fflush = none ∧ f.unlock = false) := by simp [hu]
      exact ⟨⟨hhold.stream, hhold.content⟩, hapart.trans (.refl rfl rfl), rfl,
        iff_of_false (hne _) hno, fun h0 => absurd h0 (hne _), (if_neg (hne _)).symm⟩
    · exact ⟨⟨hhold.stream, hhold.content⟩, hapart.trans (.refl rfl rfl), rfl,
        iff_of_true rfl ⟨hf, by simpa using hu⟩, fun _ => rfl, (if_pos rfl).symm⟩
  · exact absurd hr.size (not_lt.mpr hsize)

/-- A record of which nothing reaches the file. -/
theorem storageBinlogWrite_unprinted (h : Holds l w text) {op : Byte} {filename : Bytes}
    (hu : Unprinted f (recordText (logRecord f op filename))) :
    (storageBinlogWrite cfg f w op filename).2 ≠ some 0 ∧
      Holds l (storageBinlogWrite cfg f w op filename).1 text ∧
      SameLog w (storageBinlogWrite cfg f w op filename).1 ∧
      Apart (· = l) w (storageBinlogWrite cfg f w op filename).1 ∧
      (storageBinlogWrite cfg f w op filename).1.written = w.written := by
  obtain ⟨v, r, hr, he, rfl | rfl | rfl⟩ := storageBinlogWrite_eq_of_unprinted cfg h.stream hu
  · rw [he]
    exact ⟨hr, h, ⟨rfl, rfl, rfl, rfl, fun _ => rfl⟩, .refl rfl rfl, rfl⟩
  · rw [he]
    exact ⟨hr, ⟨h.stream, h.content⟩, ⟨rfl, rfl, rfl, rfl, fun _ => rfl⟩, .refl rfl rfl, rfl⟩
  · rw [he]
    have hhold := h.appended []
    rw [List.append_nil] at hhold
    exact ⟨hr, hhold, ⟨rfl, rfl, rfl, rfl, (apart_log w l []).isDir⟩, apart_log w l [], rfl⟩

/-- The size counter and the stream behind a record that was logged. -/
theorem storageBinlogWrite_counted {op : Byte} {filename : Bytes}
    (h : Logs f w (logRecord f op filename)) :
    (storageBinlogWrite cfg f w op filename).1.fpBinlog =
        (counted w (logRecord f op filename)).fpBinlog ∧
      (storageBinlogWrite cfg f w op filename).1.binlogFileSize =
        (counted w (logRecord f op filename)).binlogFileSize := by
  obtain ⟨hq, ⟨k, hk⟩, hlen, hsize⟩ := h
  rw [storageBinlogWrite_quiet hq hk op filename hlen hsize]
  exact ⟨rfl, rfl⟩

/-- Behind a record that was logged the log is that of the counted one. -/
theorem logged_sameLog {v : World} (h : SameLog w v) {op : Byte} {filename : Bytes}
    (hl : Logs f v (logRecord f op filename)) :
    SameLog (counted w (logRecord f op filename)) (storageBinlogWrite cfg f v op filename).1 := by
  obtain ⟨hq, ⟨k, hk⟩, hlen, hsize⟩ := hl
  rw [storageBinlogWrite_quiet hq hk op filename hlen hsize]
  refine ⟨h.stream, ?_, h.index, h.cwd, fun l => ?_⟩
  · simp [flushed, counted, nextSize, h.size]
  · exact (FileTree.isDir_appendFile _ _ _ _).trans (h.isDir l)

theorem Logs.reaches {record : LogRecord} (h : Logs f w record) :
    Reaches f w (recordText record) :=
  ⟨h.quiet.lock, h.quiet.fprintf, h.length, fun k hk => by simp [h.quiet.fflush] at hk, h.size⟩

theorem Reaches.congr {v : World} (h : Reaches f w text)
    (hn : v.binlogFileSize = w.binlogFileSize) : Reaches f v text :=
  ⟨h.lock, h.fprintf, h.length, h.fflush, by simpa [nextSize, hn] using h.size⟩

/-- The write returns 0 or leaves the file alone. -/
def Clean (f : BinlogFaults) (w : World) (record : LogRecord) : Prop :=
  Logs f w record ∨ Unprinted f (recordText record)

theorem Clean.congr {v : World} {record : LogRecord} (hs : v.fpBinlog = w.fpBinlog)
    (hn : v.binlogFileSize = w.binlogFileSize) : Clean f v record ↔ Clean f w record := by
  rw [Clean, Clean, Logs.congr hs hn]

end Writes

section OffLog

/-- A step outside the log. -/
structure OffLog (l : Loc) (w v : World) : Prop where
  same : SameLog w v
  content : v.tree.content l = w.tree.content l
  written : v.written = w.written

variable {w v u : World} {l : Loc} {text p : Bytes}

theorem Holds.offLog (h : Holds l w text) (ho : OffLog l w v) : Holds l v text :=
  ⟨ho.same.stream.trans h.stream, ho.content.trans h.content⟩

theorem OffLog.refl (w : World) (l : Loc) : OffLog l w w := ⟨sameLog_calls w w.calls, rfl, rfl⟩

theorem OffLog.trans (h : OffLog l w v) (h' : OffLog l v u) : OffLog l w u :=
  ⟨h.same.trans h'.same, h'.content.trans h.content, h'.written.trans h.written⟩

theorem OffLog.locate_ne (h : OffLog l w v) {k : Loc} (hp : w.locate p ≠ .ok k) :
    v.locate p ≠ .ok k := (h.same.locate p k).not.mpr hp

theorem offLog_calls (w : World) (l : Loc) (cs : List Bytes) : OffLog l w { w with calls := cs } :=
  ⟨sameLog_calls w cs, rfl, rfl⟩

theorem offLog_stored {k : Loc} (h : k ≠ l) (w : World) (p b : Bytes) :
    OffLog l w (stored w p k b) :=
  ⟨sameLog_stored w p k b, FileTree.content_setFile_of_ne _ _ h.symm, rfl⟩

theorem writeToFile_offLog (f : WriteFaults) (h : w.locate p ≠ .ok l) (buff : Bytes) :
    OffLog l w (writeToFile f w p buff).1 := by
  by_cases ho : ∃ k, Opens f w p k
  · obtain ⟨k, ho⟩ := ho
    obtain ⟨r, he, -⟩ := writeToFile_of_opens ho buff
    rw [he]
    have hne : k ≠ l := by
      rintro rfl
      exact h ho.2.1
    exact offLog_stored hne w p _
  · rw [writeToFile_of_not_opens fun k hk => ho ⟨k, hk⟩]
    exact offLog_calls w l _

theorem unlink_offLog (fault : Option Errno) (h : w.locate p ≠ .ok l) :
    OffLog l w (unlink fault w p).1 := by
  have hsame := unlink_sameLog fault w p
  obtain ⟨-, k, hk, he⟩ | ⟨-, e, he⟩ := unlink_cases fault w p
  · rw [he] at hsame ⊢
    have hne : l ≠ k := fun he => h (he ▸ hk.1)
    exact ⟨hsame, FileTree.content_removeFile_of_ne _ hne, rfl⟩
  · rw [he]
    exact offLog_calls w l _

end OffLog

end DemoStorage.LogWrites
