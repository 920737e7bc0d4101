import DemoStorage.BinlogOutcomes

/-!
# What the file functions do to the store

A write of a whole file either leaves the store alone or puts the bytes that reached the
disk at the place of the path; an unlink either leaves the store alone or removes the file
there. A binlog write touches nothing but the places of the log, and directories come and
go with none of them.
-/

namespace DemoStorage.FileEffects
open ByteStrings LexicalPaths PosixFileTree DaemonState BinlogWriting BinlogOutcomes

section Writes

/-- The path can be opened for writing and names the place. -/
def Opens (f : WriteFaults) (w : World) (p : Bytes) (l : Loc) : Prop :=
  f.fopen = false ∧ w.locate p = .ok l ∧ w.tree.holds l = true

/-- `fwrite` reports fewer bytes than asked for. -/
def Reported (f : WriteFaults) (buff : Bytes) : Prop := ∃ k, f.fwrite = some k ∧ k < buff.length

instance (f : WriteFaults) (buff : Bytes) : Decidable (Reported f buff) :=
  decidable_of_iff (∃ k ∈ f.fwrite, k < buff.length) (by simp [Reported])

/-- Fewer bytes than asked for reach the file; what `fclose` could not write is not reported. -/
def Short (f : WriteFaults) (buff : Bytes) : Prop :=
  Reported f buff ∨ ∃ k, f.fclose = some k ∧ k < buff.length

instance (f : WriteFaults) (buff : Bytes) : Decidable (Short f buff) :=
  decidable_of_iff (Reported f buff ∨ ∃ k ∈ f.fclose, k < buff.length) (by simp [Short])

/-- The bytes that reach the file. -/
def reached (f : WriteFaults) (buff : Bytes) : Bytes :=
  leftByFclose f (match f.fwrite with
    | none => buff
    | some k => buff.take k)

/-- A file put at a place through a path. -/
def stored (w : World) (p : Bytes) (l : Loc) (b : Bytes) : World :=
  { w.touch p with tree := w.tree.setFile l b }

theorem Opens.unique {f g : WriteFaults} {w : World} {p : Bytes} {l k : Loc}
    (h : Opens f w p l) (h' : Opens g w p k) : k = l :=
  Except.ok.inj (h'.2.1.symm.trans h.2.1)

theorem Reported.short {f : WriteFaults} {buff : Bytes} (h : Reported f buff) : Short f buff := .inl h

theorem not_short_of_quiet {f : WriteFaults} (hw : f.fwrite = none) (hc : f.fclose = none)
    (buff : Bytes) : ¬ Short f buff := by
  simp [Short, Reported, hw, hc]

theorem reached_of_not_short {f : WriteFaults} {buff : Bytes} (h : ¬ Short f buff) :
    reached f buff = buff := by
  have hclose : leftByFclose f buff = buff := by
    unfold leftByFclose
    split
    · rfl
    · rename_i k hk
      exact List.take_of_length_le (not_lt.mp fun hlt => h (.inr ⟨k, hk, hlt⟩))
  unfold reached
  split
  · exact hclose
  · rename_i k hk
    rw [List.take_of_length_le (not_lt.mp fun hlt => h (.inl ⟨k, hk, hlt⟩))]
    exact hclose

/-- Only the flush of a write that is not reported as short loses bytes. -/
theorem reached_of_not_reported {f : WriteFaults} {buff : Bytes} (h : ¬ Reported f buff) :
    reached f buff = leftByFclose f buff := by
  unfold reached
  split
  · rfl
  · rename_i k hk
    rw [List.take_of_length_le (not_lt.mp fun hlt => h ⟨k, hk, hlt⟩)]

theorem writeToFile_eq_stored {f : WriteFaults} {w : World} {p : Bytes} {l : Loc}
    (h : Opens f w p l) (buff : Bytes) : writeToFile f w p buff =
      (stored w p l (reached f buff), if Reported f buff then errnoOr f.errno ENOENT else 0) := by
  obtain ⟨hf, hl, hh⟩ := h
  have ho : w.tree.openWrite w.cwd p true = .ok (l, w.tree.setFile l []) :=
    FileTree.openWrite_truncate hl hh
  cases hw : f.fwrite with
  | none =>
    have hs : ¬ Reported f buff := by simp [Reported, hw]
    simp [writeToFile, hf, ho, hw, hs, stored, reached]
  | some k =>
    have hs : Reported f buff ↔ k < buff.length := by simp [Reported, hw]
    by_cases hk : k < buff.length
    · simp [writeToFile, hf, ho, hw, hs, hk, stored, reached]
    · simp [writeToFile, hf, ho, hw, hs, hk, stored, reached,
        List.take_of_length_le (not_lt.mp hk)]

theorem writeToFile_of_opens {f : WriteFaults} {w : World} {p : Bytes} {l : Loc}
    (h : Opens f w p l) (buff : Bytes) : ∃ r, writeToFile f w p buff =
      (stored w p l (reached f buff), r) ∧ (r = 0 ↔ ¬ Reported f buff) := by
  refine ⟨_, writeToFile_eq_stored h buff, ?_⟩
  split_ifs with hs
  · exact iff_of_false (errnoOr_ne_zero (by decide)) (not_not_intro hs)
  · exact iff_of_true rfl hs

theorem writeToFile_of_not_opens {f : WriteFaults} {w : World} {p : Bytes}
    (h : ∀ l, ¬ Opens f w p l) (buff : Bytes) :
    writeToFile f w p buff = (w.touch p, errnoOr f.errno ENOENT) := by
  unfold writeToFile
  split
  · rfl
  · rename_i hf
    split
    · rfl
    · rename_i l t ho
      obtain ⟨hl, hh, -⟩ := FileTree.openWrite_ok ho
      exact absurd ⟨by simpa using hf, hl, hh⟩ (h l)

end Writes

section Unlinks

/-- The path names a regular file. -/
def Removable (w : World) (p : Bytes) (l : Loc) : Prop :=
  w.locate p = .ok l ∧ (w.tree.content l).isSome

theorem unlink_of_removable {w : World} {p : Bytes} {l : Loc} (h : Removable w p l) :
    unlink none w p = ({ w.touch p with tree := w.tree.removeFile l }, none) := by
  obtain ⟨hl, hc⟩ := h
  obtain ⟨b, hb⟩ := Option.isSome_iff_exists.mp hc
  have hu := FileTree.unlink_of_content hl hb
  simp [unlink, hu]

theorem unlink_of_not_removable {fault : Option Errno} {w : World} {p : Bytes}
    (h : fault = none → ∀ l, ¬ Removable w p l) : ∃ e, unlink fault w p = (w.touch p, some e) := by
  cases fault with
  | some e => exact ⟨e, rfl⟩
  | none =>
    cases hu : w.tree.unlink w.cwd p with
    | error e => exact ⟨e, by simp [unlink, hu]⟩
    | ok t =>
      obtain ⟨l, b, hl, hb, -⟩ := FileTree.unlink_ok hu
      exact absurd ⟨hl, by simp [hb]⟩ (h rfl l)

/-- An unlink removes the file its path names, or fails and leaves everything. -/
theorem unlink_cases (fault : Option Errno) (w : World) (p : Bytes) :
    (fault = none ∧ ∃ l, Removable w p l ∧
      unlink fault w p = ({ w.touch p with tree := w.tree.removeFile l }, none)) ∨
    (¬ (fault = none ∧ ∃ l, Removable w p l) ∧ ∃ e, unlink fault w p = (w.touch p, some e)) := by
  by_cases h : fault = none ∧ ∃ l, Removable w p l
  · obtain ⟨rfl, l, hl⟩ := h
    exact .inl ⟨rfl, l, hl, unlink_of_removable hl⟩
  · exact .inr ⟨h, unlink_of_not_removable fun hf l hl => h ⟨hf, l, hl⟩⟩

end Unlinks

section Log

/-- The places of the log: the open stream, the index file and the next file. -/
def LogPlace (cfg : Config) (w : World) (l : Loc) : Prop :=
  (∃ s, w.fpBinlog = some s ∧ s.loc = l) ∨ w.locate (binlogIndexFilename cfg) = .ok l ∨
    w.locate (binlogFilename cfg (wrap32 (w.binlogIndex + 1))) = .ok l

/-- One state has the directories of another and its files outside some places. -/
structure Apart (P : Loc → Prop) (w v : World) : Prop where
  cwd : v.cwd = w.cwd
  isDir : ∀ l, v.tree.isDir l = w.tree.isDir l
  node : ∀ l, ¬ P l → v.tree.node l = w.tree.node l

variable {P : Loc → Prop}

theorem Apart.refl {w v : World} (hc : v.cwd = w.cwd) (ht : v.tree = w.tree) : Apart P w v :=
  ⟨hc, fun _ => by rw [ht], fun _ _ => by rw [ht]⟩

theorem Apart.trans {w v u : World} (h : Apart P w v) (h' : Apart P v u) : Apart P w u :=
  ⟨h'.cwd.trans h.cwd, fun l => (h'.isDir l).trans (h.isDir l),
    fun l hl => (h'.node l hl).trans (h.node l hl)⟩

theorem Apart.locate {w v : World} (h : Apart P w v) (p : Bytes) (l : Loc) :
    v.locate p = .ok l ↔ w.locate p = .ok l := by
  rw [World.locate, World.locate, h.cwd]
  exact FileTree.locate_ok_congr h.isDir w.cwd p l

theorem Apart.content {w v : World} (h : Apart P w v) {l : Loc} (hl : ¬ P l) :
    v.tree.content l = w.tree.content l := by
  unfold FileTree.content
  rw [h.node l hl]

private theorem apart_setFile {w v : World} {l : Loc} {b : Bytes} (hl : P l) (hc : v.cwd = w.cwd)
    (ht : v.tree = w.tree.setFile l b) : Apart P w v :=
  ⟨hc, fun _ => by simp [ht], fun k hk => by
    have hne : k ≠ l := fun he => hk (he ▸ hl)
    rw [ht, FileTree.node_setFile_of_ne _ _ hne]⟩

theorem apart_appended {w : World} {l : Loc} (hl : P l) (text : Bytes) :
    Apart P w (appended w l text) :=
  ⟨rfl, fun _ => FileTree.isDir_appendFile _ _ _ _, fun _ hk =>
    FileTree.node_appendFile_of_ne _ _ fun he => hk (he ▸ hl)⟩

theorem writeToBinlogIndex_apart (cfg : Config) (f : IndexFaults) {w : World}
    (hP : ∀ l, w.locate (binlogIndexFilename cfg) = .ok l → P l) :
    Apart P w (writeToBinlogIndex cfg f w).1 := by
  simp only [writeToBinlogIndex]
  split
  · exact .refl rfl rfl
  · split
    · exact .refl rfl rfl
    · rename_i l t ho
      obtain ⟨hl, -, rfl | ⟨hc, -⟩⟩ := FileTree.openWrite_ok ho
      · split_ifs
        · exact apart_setFile (hP l hl) rfl (FileTree.setFile_setFile _ _ _ _)
        · exact apart_setFile (hP l hl) rfl (FileTree.setFile_setFile _ _ _ _)
      · cases hc

theorem unlink_apart (fault : Option Errno) {w : World} {p : Bytes}
    (hP : ∀ l, w.locate p = .ok l → P l) : Apart P w (unlink fault w p).1 := by
  obtain ⟨-, l, hl, he⟩ | ⟨-, e, he⟩ := unlink_cases fault w p
  · rw [he]
    exact ⟨rfl, fun k => FileTree.isDir_removeFile _ _ _, fun k hk =>
      FileTree.node_removeFile_of_ne _ fun he => hk (he ▸ hP l hl.1)⟩
  · rw [he]
    exact .refl rfl rfl

theorem openNextWritableBinlog_apart (cfg : Config) (f : RotateFaults) {w : World}
    (hP : ∀ l, w.locate (getWritableBinlogFilename cfg w) = .ok l → P l) :
    Apart P w (openNextWritableBinlog cfg f w).1 := by
  have hd : Apart P w (storageSyncDestroy f.destroy w).1 := by
    unfold storageSyncDestroy
    split <;> split_ifs <;> exact .refl rfl rfl
  have hname : getWritableBinlogFilename cfg (storageSyncDestroy f.destroy w).1 =
      getWritableBinlogFilename cfg w := by
    unfold storageSyncDestroy
    split <;> split_ifs <;> rfl
  simp only [openNextWritableBinlog, hname]
  generalize (storageSyncDestroy f.destroy w).1 = v at hd ⊢
  have hu : Apart P v (unlinkExisting f.unlink v (getWritableBinlogFilename cfg w)).1 := by
    by_cases hx : v.tree.access v.cwd (getWritableBinlogFilename cfg w) = true
    · have he : unlinkExisting f.unlink v (getWritableBinlogFilename cfg w) =
          unlink f.unlink (v.touch (getWritableBinlogFilename cfg w))
            (getWritableBinlogFilename cfg w) := by
        simp [unlinkExisting, fileExists, hx]
      rw [he]
      have ht : Apart P v (v.touch (getWritableBinlogFilename cfg w)) := .refl rfl rfl
      exact ht.trans (unlink_apart _ fun l hl => hP l ((hd.locate _ l).mp hl))
    · simp only [unlinkExisting, fileExists, hx]
      exact .refl rfl rfl
  generalize unlinkExisting f.unlink v (getWritableBinlogFilename cfg w) = r at hu ⊢
  refine (hd.trans hu).trans ?_
  split_ifs
  · exact .refl rfl rfl
  · split <;> exact .refl rfl rfl
  · split <;> exact .refl rfl rfl

theorem rotateBinlog_apart (cfg : Config) (f : RotateFaults) {w : World}
    (hi : ∀ l, w.locate (binlogIndexFilename cfg) = .ok l → P l)
    (hn : ∀ l, w.locate (binlogFilename cfg (wrap32 (w.binlogIndex + 1))) = .ok l → P l) :
    Apart P w (rotateBinlog cfg f w).1 := by
  set v := { w with binlogIndex := wrap32 (w.binlogIndex + 1) } with hv
  have h0 : Apart P w v := .refl rfl rfl
  have h1 : Apart P w (writeToBinlogIndex cfg f.index v).1 :=
    h0.trans (writeToBinlogIndex_apart cfg f.index hi)
  have hindex : (writeToBinlogIndex cfg f.index v).1.binlogIndex = v.binlogIndex := by
    simp only [writeToBinlogIndex]
    split
    · rfl
    · split
      · rfl
      · split_ifs <;> rfl
  have h2 : Apart P w (if (writeToBinlogIndex cfg f.index v).2 = 0 then
      openNextWritableBinlog cfg f (writeToBinlogIndex cfg f.index v).1
      else writeToBinlogIndex cfg f.index v).1 := by
    split_ifs
    · refine h1.trans (openNextWritableBinlog_apart cfg f fun l hl => hn l ?_)
      rw [getWritableBinlogFilename, hindex] at hl
      exact (h1.locate _ l).mp hl
    · exact h1
  simp only [rotateBinlog, ← hv]
  split_ifs at h2 ⊢ <;> exact h2.trans (.refl rfl rfl)

/-- A binlog write changes nothing outside the places of the log. -/
theorem storageBinlogWrite_apart (cfg : Config) (f : BinlogFaults) (w : World) (opType : Byte)
    (filename : Bytes) :
    Apart (LogPlace cfg w) w (storageBinlogWrite cfg f w opType filename).1 := by
  have hout := storageBinlogWrite_outcome cfg f w opType filename
  generalize storageBinlogWrite cfg f w opType filename = r at hout
  obtain ⟨v, r⟩ := r
  dsimp only at hout ⊢
  have happ (s : Stream) (hs : w.fpBinlog = some s) (text : Bytes) :
      Apart (LogPlace cfg w) w (appended w s.loc text) := apart_appended (.inl ⟨s, hs, rfl⟩) text
  cases hout with
  | nullStream => exact .refl rfl rfl
  | refused => exact .refl rfl rfl
  | died => exact .refl rfl rfl
  | torn s hs k => exact happ s hs _
  | logged s hs => exact (happ s hs _).trans (.refl rfl rfl)
  | notUnlocked s hs => exact (happ s hs _).trans (.refl rfl rfl)
  | rotated s hs =>
    have h1 := (happ s hs (recordText (logRecord f opType filename))).trans
      (v := appended w s.loc _) (u := flushed w s.loc _) (.refl rfl rfl)
    exact h1.trans (rotateBinlog_apart cfg f.rotate
      (fun l hl => .inr (.inl ((h1.locate _ l).mp hl)))
      (fun l hl => .inr (.inr ((h1.locate _ l).mp hl))))

/-- A record is logged: the stream appends, no call fails and the limit is not reached. -/
structure Logs (f : BinlogFaults) (w : World) (record : LogRecord) : Prop where
  quiet : Quiet f
  stream : ∃ l, w.fpBinlog = some ⟨l, true⟩
  length : ((recordText record).length : ℤ) ≤ INT_MAX
  size : nextSize w (recordText record).length < SYNC_BINLOG_FILE_MAX_SIZE

/-- The outcomes of a binlog write that are a success are those of a logged record. -/
theorem storageBinlogWrite_eq_zero {cfg : Config} {f : BinlogFaults} {w : World} {opType : Byte}
    {filename : Bytes} : (storageBinlogWrite cfg f w opType filename).2 = some 0 ↔
      Logs f w (logRecord f opType filename) := by
  have hne (d : Errno) : errnoOr d ENOENT ≠ 0 := errnoOr_ENOENT_ne_zero _
  constructor
  · intro h
    simp only [storageBinlogWrite] at h
    cases hs : w.fpBinlog with
    | none => simp [hs] at h
    | some s =>
      rw [hs] at h
      cases hl : f.lock with
      | true => exact absurd (by simpa [hl] using h) (hne _)
      | false =>
        simp only [hl, Bool.false_eq_true, if_false] at h
        obtain ⟨-, he⟩ | ⟨-, k, r, -, hr, he⟩ | ⟨hp, hf, hsize, he⟩ | ⟨-, -, -, he⟩ :=
          appendRecord_cases cfg f w s (recordText (logRecord f opType filename))
        · simp [he] at h
        · simp only [he, hr, if_false] at h
          split_ifs at h
          · exact absurd (Option.some.inj h) (hne _)
          · exact absurd (Option.some.inj h) hr
        · simp only [he, if_true] at h
          split_ifs at h with hu
          · exact absurd (Option.some.inj h) (hne _)
          · obtain ⟨l, a⟩ := s
            obtain rfl : a = true := hp.2.1
            exact ⟨⟨hl, hp.1, hf, by simpa using hu⟩, ⟨l, hs⟩, hp.2.2, hsize⟩
        · have hr := rotateBinlog_ne_zero cfg f.rotate
            (flushed w s.loc (recordText (logRecord f opType filename)))
          rw [he] at h
          generalize rotateBinlog cfg f.rotate
            (flushed w s.loc (recordText (logRecord f opType filename))) = x at hr h
          obtain ⟨v, _ | r⟩ := x
          · cases h
          · have hr : r ≠ 0 := fun h0 => hr (congrArg some h0)
            simp only [hr, if_false] at h
            split_ifs at h
            · exact absurd (Option.some.inj h) (hne _)
            · exact absurd (Option.some.inj h) hr
  · rintro ⟨hq, ⟨l, hs⟩, hlen, hsize⟩
    rw [storageBinlogWrite_quiet hq hs opType filename hlen hsize]

theorem Logs.congr {f : BinlogFaults} {w v : World} {record : LogRecord}
    (hs : v.fpBinlog = w.fpBinlog) (hn : v.binlogFileSize = w.binlogFileSize) :
    Logs f v record ↔ Logs f w record := by
  have hnext (n : ℕ) : nextSize v n = nextSize w n := by simp [nextSize, hn]
  constructor
  · rintro ⟨hq, ⟨l, hl⟩, hlen, hsize⟩
    exact ⟨hq, ⟨l, hs ▸ hl⟩, hlen, hnext _ ▸ hsize⟩
  · rintro ⟨hq, ⟨l, hl⟩, hlen, hsize⟩
    exact ⟨hq, ⟨l, hs ▸ hl⟩, hlen, hnext _ ▸ hsize⟩

/-- Two states with the same log and the same directories. -/
structure SameLog (w v : World) : Prop where
  stream : v.fpBinlog = w.fpBinlog
  size : v.binlogFileSize = w.binlogFileSize
  index : v.binlogIndex = w.binlogIndex
  cwd : v.cwd = w.cwd
  isDir : ∀ l, v.tree.isDir l = w.tree.isDir l

theorem SameLog.refl (w : World) : SameLog w w := ⟨rfl, rfl, rfl, rfl, fun _ => rfl⟩

theorem SameLog.trans {w v u : World} (h : SameLog w v) (h' : SameLog v u) : SameLog w u :=
  ⟨h'.stream.trans h.stream, h'.size.trans h.size, h'.index.trans h.index, h'.cwd.trans h.cwd,
    fun l => (h'.isDir l).trans (h.isDir l)⟩

theorem SameLog.locate {w v : World} (h : SameLog w v) (p : Bytes) (l : Loc) :
    v.locate p = .ok l ↔ w.locate p = .ok l := by
  rw [World.locate, World.locate, h.cwd]
  exact FileTree.locate_ok_congr h.isDir w.cwd p l

/-- What decides about the death in a binlog write are the log and the directories. -/
theorem SameLog.dies {w v : World} (h : SameLog w v) {cfg : Config} {f : BinlogFaults}
    {record : LogRecord} : Dies cfg f v record ↔ Dies cfg f w record := by
  have hnext (n : ℕ) : nextSize v n = nextSize w n := by simp [nextSize, h.size]
  simp only [Dies, h.stream, hnext, IndexWritten.congr h.cwd h.isDir]

theorem SameLog.logPlace {w v : World} (h : SameLog w v) (cfg : Config) (l : Loc) :
    LogPlace cfg v l ↔ LogPlace cfg w l := by
  rw [LogPlace, LogPlace, h.stream, h.index, h.locate, h.locate]

theorem SameLog.opens {w v : World} (h : SameLog w v) {f : WriteFaults} {p : Bytes} {l : Loc} :
    Opens f v p l ↔ Opens f w p l := by
  simp only [Opens, h.locate, FileTree.holds, h.isDir]

theorem sameLog_stored (w : World) (p : Bytes) (l : Loc) (b : Bytes) : SameLog w (stored w p l b) :=
  ⟨rfl, rfl, rfl, rfl, fun _ => FileTree.isDir_setFile _ _ _ _⟩

theorem sameLog_calls (w : World) (cs : List Bytes) : SameLog w { w with calls := cs } :=
  ⟨rfl, rfl, rfl, rfl, fun _ => rfl⟩

theorem sameLog_touch (w : World) (p : Bytes) : SameLog w (w.touch p) := sameLog_calls w _

theorem writeToFile_sameLog (f : WriteFaults) (w : World) (p buff : Bytes) :
    SameLog w (writeToFile f w p buff).1 := by
  by_cases ho : ∃ l, Opens f w p l
  · obtain ⟨l, ho⟩ := ho
    rw [writeToFile_eq_stored ho]
    exact sameLog_stored _ _ _ _
  · rw [writeToFile_of_not_opens fun l hl => ho ⟨l, hl⟩]
    exact sameLog_touch _ _

theorem unlink_sameLog (fault : Option Errno) (w : World) (p : Bytes) :
    SameLog w (unlink fault w p).1 := by
  obtain ⟨-, l, -, he⟩ | ⟨-, e, he⟩ := unlink_cases fault w p
  · rw [he]
    exact ⟨rfl, rfl, rfl, rfl, fun _ => FileTree.isDir_removeFile _ _ _⟩
  · rw [he]
    exact sameLog_calls w _

end Log

end DemoStorage.FileEffects
