import DemoStorage.BinlogRotation
import Mathlib.Logic.Function.Basic

/-!
# Threads inside a binlog write

The calls of `storage_binlog_write` by the service threads of one process, step by step.
The file lock is a record lock: it belongs to a process, so a lock the process has is
granted to it again, whichever thread asks. `sync_thread_lock` is initialised and destroyed
and never taken. Where no two calls overlap, one thread at a time is behind the lock and
each crossing of the size limit advances the index once.
-/

namespace DemoStorage.BinlogExclusion
open ByteStrings PosixFileTree DaemonState BinlogWriting BinlogOutcomes ConditionedRuns
open BinlogRotation

/-- Process ids. -/
abbrev Pid := ℕ

/-- Owners of the record locks, by file. -/
abbrev LockTable := Loc → Option Pid

section Locks

/-- A record lock keeps out the other processes only. -/
def grants (locks : LockTable) (file : Loc) (p : Pid) : Bool :=
  locks file = none || locks file = some p

/-- `F_SETLKW` with `F_WRLCK`, once it is granted. -/
def acquire (locks : LockTable) (file : Loc) (p : Pid) : LockTable :=
  Function.update locks file (some p)

/-- `F_SETLKW` with `F_UNLCK`. -/
def release (locks : LockTable) (file : Loc) : LockTable :=
  Function.update locks file none

/-- No other process has a lock. -/
def OwnedBy (locks : LockTable) (p : Pid) : Prop :=
  ∀ file, locks file = none ∨ locks file = some p

theorem OwnedBy.granted {locks : LockTable} {p : Pid} (h : OwnedBy locks p)
    (file : Loc) : grants locks file p = true := by
  rcases h file with hn | hs
  · simp [grants, hn]
  · simp [grants, hs]

theorem OwnedBy.after_acquire {locks : LockTable} {p : Pid} (h : OwnedBy locks p)
    (file : Loc) : OwnedBy (acquire locks file p) p := by
  intro k
  by_cases hk : k = file
  · right
    simp [acquire, hk]
  · simpa [acquire, hk] using h k

theorem OwnedBy.after_release {locks : LockTable} {p : Pid} (h : OwnedBy locks p)
    (file : Loc) : OwnedBy (release locks file) p := by
  intro k
  by_cases hk : k = file
  · left
    simp [release, hk]
  · simpa [release, hk] using h k

end Locks

/-- Program points of `storage_binlog_write`; `fd` is the file taken with `fileno`. Where a call
does not return, the other threads have got as far as they do here before the process is gone. -/
inductive WriterPc where
  | outside
  | entered (c : BinlogCall) (fd : Loc)
  | locked (c : BinlogCall) (fd : Loc)
  | flushed (c : BinlogCall) (fd : Loc)
  | rotating (c : BinlogCall) (fd : Loc)
  | releasing (c : BinlogCall) (fd : Loc) (result : Option Errno)

structure State (ι : Type) where
  world : World
  locks : LockTable
  pc : ι → WriterPc

inductive Action (ι : Type) where
  | call (t : ι) (c : BinlogCall)
  | advance (t : ι)

section Writers
variable {ι : Type} [DecidableEq ι]

def State.move (s : State ι) (t : ι) (pc : WriterPc) : State ι :=
  { s with pc := Function.update s.pc t pc }

@[simp] theorem move_world (s : State ι) (t : ι) (pc : WriterPc) :
    (s.move t pc).world = s.world := rfl
@[simp] theorem move_locks (s : State ι) (t : ι) (pc : WriterPc) :
    (s.move t pc).locks = s.locks := rfl
@[simp] theorem move_pc_self (s : State ι) (t : ι) (pc : WriterPc) :
    (s.move t pc).pc t = pc := by simp [State.move]
@[simp] theorem move_pc_of_ne (s : State ι) {t u : ι} (h : u ≠ t) (pc : WriterPc) :
    (s.move t pc).pc u = s.pc u := by simp [State.move, h]

/-- A thread outside the function calls it. -/
def enter (s : State ι) (t : ι) (c : BinlogCall) : State ι :=
  match s.pc t with
  | .outside => match s.world.fpBinlog with
    | none => { s with world := { s.world with nullStreamUse := true } }
    | some f => s.move t (.entered c f.loc)
  | _ => s

/-- `fprintf` and `fflush` on the stream of the moment. -/
def printRecord (w : World) (c : BinlogCall) : World × Except (Option Errno) Unit :=
  match w.fpBinlog with
  | none => ({ w with nullStreamUse := true }, .error none)
  | some f =>
    if c.faults.fprintf ∨ f.append = false ∨ INT_MAX < c.text.length then
      ({ w with killed := true }, .error none)
    else match c.faults.fflush with
      | some k => (appended w f.loc (c.text.take k), .error (some (errnoOr c.faults.errno ENOENT)))
      | none => (appended w f.loc c.text, .ok ())

/-- The next step of a thread inside the function. -/
def advance (cfg : Config) (p : Pid) (s : State ι) (t : ι) : State ι :=
  match s.pc t with
  | .outside => s
  | .entered c fd =>
    if c.faults.lock then s.move t .outside
    else if grants s.locks fd p then { s.move t (.locked c fd) with locks := acquire s.locks fd p }
    else s
  | .locked c fd => match printRecord s.world c with
    | (w, .error e) => { s.move t (.releasing c fd e) with world := w }
    | (w, .ok ()) => { s.move t (.flushed c fd) with world := w }
  | .flushed c fd =>
    let w := { s.world with binlogFileSize := nextSize s.world c.text.length }
    if SYNC_BINLOG_FILE_MAX_SIZE ≤ w.binlogFileSize then
      { s.move t (.rotating c fd) with world := w }
    else { s.move t (.releasing c fd (some 0)) with world := w }
  | .rotating c fd =>
    let r := rotateBinlog cfg c.faults.rotate s.world
    { s.move t (.releasing c fd r.2) with world := r.1 }
  | .releasing c fd r =>
    if c.faults.unlock then s.move t .outside
    else { s.move t .outside with
      locks := release s.locks fd
      world := if r = some 0 then { s.world with written := s.world.written ++ [c.record] }
        else s.world }

def step (cfg : Config) (p : Pid) (s : State ι) : Action ι → State ι
  | .call t c => enter s t c
  | .advance t => advance cfg p s t

/-- Behind the lock and not released yet. -/
def WriterPc.inSection : WriterPc → Bool
  | .locked _ _ => true
  | .flushed _ _ => true
  | .rotating _ _ => true
  | .releasing _ _ _ => true
  | _ => false

def WriterPc.isRotating : WriterPc → Bool
  | .rotating _ _ => true
  | _ => false

def Exclusive (s : State ι) : Prop :=
  ∀ t u, (s.pc t).inSection = true → (s.pc u).inSection = true → t = u

/-- The step takes the size counter from below the limit to the limit or beyond. -/
def crosses (s s' : State ι) : Bool :=
  decide (s.world.binlogFileSize < SYNC_BINLOG_FILE_MAX_SIZE ∧
    SYNC_BINLOG_FILE_MAX_SIZE ≤ s'.world.binlogFileSize)

/-- The number of crossings of the limit in a run. -/
def crossings (cfg : Config) (p : Pid) : State ι → List (Action ι) → ℕ
  | _, [] => 0
  | s, a :: as =>
    (if crosses s (step cfg p s a) then 1 else 0) + crossings cfg p (step cfg p s a) as

/-- The condition: a thread enters while all others are outside. -/
def Serial (s : State ι) : Action ι → Prop
  | .call t _ => ∀ u, u ≠ t → s.pc u = .outside
  | .advance _ => True

/-- No thread has entered, the locks are the process's and the counter is below the limit. -/
structure Start (p : Pid) (s : State ι) : Prop where
  outside : ∀ t, s.pc t = .outside
  owned : OwnedBy s.locks p
  size : s.world.binlogFileSize < SYNC_BINLOG_FILE_MAX_SIZE
  index : wrap32 s.world.binlogIndex = s.world.binlogIndex

/-- The process never waits for a lock of its own: nothing keeps a second thread out. -/
theorem advance_owned (cfg : Config) {p : Pid} {s : State ι} (h : OwnedBy s.locks p)
    (a : Action ι) : OwnedBy (step cfg p s a).locks p := by
  cases a with
  | call t c =>
    simp only [step, enter]
    split
    · split <;> exact h
    · exact h
  | advance t =>
    simp only [step, advance]
    split
    · exact h
    · split_ifs
      · exact h
      · exact h.after_acquire _
      · exact h
    · split <;> exact h
    · split_ifs <;> exact h
    · exact h
    · split_ifs
      · exact h
      · exact h.after_release _
      · exact h.after_release _

/-- In every state of every run a thread that asks for the lock gets it. -/
theorem lock_granted (cfg : Config) {p : Pid} {s : State ι} (h : Start p s)
    (as : List (Action ι)) {t : ι} {c : BinlogCall} {fd : Loc}
    (ht : (run (step cfg p) s as).pc t = .entered c fd) (hc : c.faults.lock = false) :
    (advance cfg p (run (step cfg p) s as) t).pc t = .locked c fd := by
  have ho : OwnedBy (run (step cfg p) s as).locks p :=
    @run_invariant _ _ (step cfg p) (fun s => OwnedBy s.locks p) s h.owned
      (fun _ a hs => advance_owned cfg hs a) as
  simp [advance, ht, hc, ho.granted fd]

/-- A call that no other thread interferes with does what `storage_binlog_write` does. -/
theorem solo_call (cfg : Config) {p : Pid} {s : State ι} {t : ι} {c : BinlogCall} {f : Stream}
    (ht : s.pc t = .outside) (hf : s.world.fpBinlog = some f) (hl : grants s.locks f.loc p = true) :
    (run (step cfg p) s (.call t c :: List.replicate 5 (.advance t))).world =
      (storageBinlogWrite cfg c.faults s.world c.op c.filename).1 := by
  have htext : recordText c.record = c.text := rfl
  have hrecord : logRecord c.faults c.op c.filename = c.record := rfl
  have hne : errnoOr c.faults.errno ENOENT ≠ 0 := errnoOr_ENOENT_ne_zero _
  by_cases hlock : c.faults.lock = true
  · simp [run, List.replicate, step, enter, advance, ht, hf, hlock, storageBinlogWrite]
  · by_cases hprint : c.faults.fprintf = true ∨ f.append = false ∨ INT_MAX < c.text.length
    · have hp : printRecord s.world c = ({ s.world with killed := true }, .error none) := by
        simp [printRecord, hf, hprint]
      cases hu : c.faults.unlock <;>
        simp [run, List.replicate, step, enter, advance, ht, hf, hl, hlock, hu, hp, hprint,
          storageBinlogWrite, appendRecord, hrecord, htext]
    · cases hflush : c.faults.fflush with
      | some k =>
        have hp : printRecord s.world c = (appended s.world f.loc (c.text.take k),
            .error (some (errnoOr c.faults.errno ENOENT))) := by
          simp [printRecord, hf, hprint, hflush]
        cases hu : c.faults.unlock <;>
          simp [run, List.replicate, step, enter, advance, ht, hf, hl, hlock, hu, hp, hprint,
            storageBinlogWrite, appendRecord, hrecord, htext, hne, hflush, appended]
      | none =>
        have hp : printRecord s.world c = (appended s.world f.loc c.text, .ok ()) := by
          simp [printRecord, hf, hprint, hflush]
        have hr := rotateBinlog_ne_zero cfg c.faults.rotate
          (BinlogOutcomes.flushed s.world f.loc c.text)
        have hn : nextSize (appended s.world f.loc c.text) c.text.length =
            nextSize s.world c.text.length := rfl
        have hw : ({ appended s.world f.loc c.text with
            binlogFileSize := nextSize s.world c.text.length } : World) =
            BinlogOutcomes.flushed s.world f.loc c.text := rfl
        by_cases hsize : SYNC_BINLOG_FILE_MAX_SIZE ≤ nextSize s.world c.text.length
        · have ha : appendRecord cfg c.faults s.world f c.text = rotateBinlog cfg c.faults.rotate
              (BinlogOutcomes.flushed s.world f.loc c.text) := by
            simp only [appendRecord, hprint, if_false, hflush]
            exact if_pos hsize
          cases hu : c.faults.unlock with
          | true =>
            simp [run, List.replicate, step, enter, advance, ht, hf, hl, hlock, hu, hp, hn, hw,
              hsize, storageBinlogWrite, ha, hrecord, htext]
            generalize rotateBinlog cfg c.faults.rotate
              (BinlogOutcomes.flushed s.world f.loc c.text) = x at hr ⊢
            obtain ⟨v, _ | r⟩ := x <;> rfl
          | false =>
            simp [run, List.replicate, step, enter, advance, ht, hf, hl, hlock, hu, hp, hn, hw,
              hsize, storageBinlogWrite, ha, hrecord, htext, hr]
            generalize rotateBinlog cfg c.faults.rotate
              (BinlogOutcomes.flushed s.world f.loc c.text) = x at hr ⊢
            obtain ⟨v, _ | r⟩ := x
            · rfl
            · have hr : r ≠ 0 := by simpa using hr
              simp [hr]
        · have ha : appendRecord cfg c.faults s.world f c.text =
              (BinlogOutcomes.flushed s.world f.loc c.text, some 0) := by
            simp only [appendRecord, hprint, if_false, hflush]
            exact if_neg hsize
          cases hu : c.faults.unlock with
          | true =>
            simp [run, List.replicate, step, enter, advance, ht, hf, hl, hlock, hu, hp, hn, hw,
              hsize, storageBinlogWrite, ha, hrecord, htext]
          | false =>
            simp [run, List.replicate, step, enter, advance, ht, hf, hl, hlock, hu, hp, hn, hw,
              hsize, storageBinlogWrite, ha, hrecord, htext]

/-- Every reported step of a run is a step of the calls one behind the other. -/
structure Inv (index : ℤ) (n : ℕ) (s : State ι) : Prop where
  alone : ∀ t u, s.pc t ≠ .outside → s.pc u ≠ .outside → t = u
  below : (∀ t, (s.pc t).isRotating = false) →
    s.world.binlogFileSize < SYNC_BINLOG_FILE_MAX_SIZE ∧ s.world.binlogIndex = wrap32 (index + n)
  behind : ∀ t, (s.pc t).isRotating = true →
    SYNC_BINLOG_FILE_MAX_SIZE ≤ s.world.binlogFileSize ∧
      wrap32 (s.world.binlogIndex + 1) = wrap32 (index + n)

omit [DecidableEq ι] in
theorem Start.inv {p : Pid} {s : State ι} (h : Start p s) : Inv s.world.binlogIndex 0 s := by
  constructor
  · intro t u ht
    exact absurd (h.outside t) ht
  · intro
    exact ⟨h.size, by simpa using h.index.symm⟩
  · intro t ht
    rw [h.outside t] at ht
    cases ht

section Steps
variable {cfg : Config} {p : Pid} {s : State ι} {index : ℤ} {n : ℕ}

/-- The world of a step that leaves the counter and the index alone. -/
structure SameCount (w v : World) : Prop where
  size : v.binlogFileSize = w.binlogFileSize
  index : v.binlogIndex = w.binlogIndex

omit [DecidableEq ι] in
/-- Where one thread is inside and not rotating, none is. -/
theorem Inv.not_rotating (h : Inv index n s) {t : ι} (ht : s.pc t ≠ .outside)
    (hr : (s.pc t).isRotating = false) (u : ι) : (s.pc u).isRotating = false := by
  by_cases hu : s.pc u = .outside
  · rw [hu]
    rfl
  · rw [h.alone u t hu ht]
    exact hr

omit [DecidableEq ι] in
theorem Inv.others_outside (h : Inv index n s) {t : ι} (ht : s.pc t ≠ .outside) {u : ι}
    (hu : u ≠ t) : s.pc u = .outside := by
  by_contra hne
  exact hu (h.alone u t hne ht)

/-- The invariant where one thread is inside, at a given point. -/
theorem inv_of_one {v : World} {ls : LockTable} {pc : WriterPc} {t : ι}
    (hout : ∀ u, u ≠ t → s.pc u = .outside)
    (hbelow : pc.isRotating = false → v.binlogFileSize < SYNC_BINLOG_FILE_MAX_SIZE ∧
      v.binlogIndex = wrap32 (index + n))
    (hbehind : pc.isRotating = true → SYNC_BINLOG_FILE_MAX_SIZE ≤ v.binlogFileSize ∧
      wrap32 (v.binlogIndex + 1) = wrap32 (index + n)) :
    Inv index n { s.move t pc with world := v, locks := ls } := by
  have hself : ({ s.move t pc with world := v, locks := ls } : State ι).pc t = pc :=
    move_pc_self s t pc
  have hne : ∀ u, u ≠ t →
      ({ s.move t pc with world := v, locks := ls } : State ι).pc u = .outside := by
    intro u hu
    exact (move_pc_of_ne s hu pc).trans (hout u hu)
  constructor
  · intro a b ha hb
    have h1 : a = t := by_contra fun h => ha (hne a h)
    have h2 : b = t := by_contra fun h => hb (hne b h)
    rw [h1, h2]
  · intro hnone
    have := hnone t
    rw [hself] at this
    exact hbelow this
  · intro u hu
    by_cases hut : u = t
    · rw [hut, hself] at hu
      exact hbehind hu
    · rw [hne u hut] at hu
      cases hu

/-- The one thread inside moves on, or leaves, without touching counter and index. -/
theorem Inv.move (h : Inv index n s) {t : ι} {pc : WriterPc} {v : World} {ls : LockTable}
    (ht : s.pc t ≠ .outside) (hr : (s.pc t).isRotating = false) (hpc : pc.isRotating = false)
    (hv : SameCount s.world v) :
    Inv index n { s.move t pc with world := v, locks := ls } := by
  apply inv_of_one (fun u => h.others_outside ht)
  · intro
    rw [hv.size, hv.index]
    exact h.below (h.not_rotating ht hr)
  · intro hrot
    rw [hpc] at hrot
    cases hrot

theorem printRecord_sameCount (w : World) (c : BinlogCall) : SameCount w (printRecord w c).1 := by
  unfold printRecord
  split
  · exact ⟨rfl, rfl⟩
  · split_ifs
    · exact ⟨rfl, rfl⟩
    · split <;> exact ⟨rfl, rfl⟩

theorem writeToBinlogIndex_sameCount (f : IndexFaults) (w : World) :
    SameCount w (writeToBinlogIndex cfg f w).1 := by
  simp only [writeToBinlogIndex]
  split
  · exact ⟨rfl, rfl⟩
  · split
    · exact ⟨rfl, rfl⟩
    · split <;> exact ⟨rfl, rfl⟩

theorem openNextWritableBinlog_index (f : RotateFaults) (w : World) :
    (openNextWritableBinlog cfg f w).1.binlogIndex = w.binlogIndex := by
  have hdestroy : (storageSyncDestroy f.destroy w).1.binlogIndex = w.binlogIndex := by
    unfold storageSyncDestroy
    split <;> split_ifs <;> rfl
  have hunlink (v : World) (full : Bytes) :
      (unlinkExisting f.unlink v full).1.binlogIndex = v.binlogIndex := by
    by_cases hx : v.tree.access v.cwd full = true
    · simp only [unlinkExisting, fileExists, hx, if_true, unlink]
      cases f.unlink with
      | some e => rfl
      | none => cases (v.touch full).tree.unlink (v.touch full).cwd full <;> rfl
    · simp [unlinkExisting, fileExists, hx, World.touch]
  simp only [openNextWritableBinlog]
  generalize (storageSyncDestroy f.destroy w).1 = v at hdestroy ⊢
  rw [← hdestroy, ← hunlink v (getWritableBinlogFilename cfg v)]
  split
  · rfl
  · split
    · split <;> rfl
    · rfl

/-- Rotation advances the index by one and restarts the counter, whatever fails. -/
theorem rotateBinlog_count (f : RotateFaults) (w : World) :
    (rotateBinlog cfg f w).1.binlogFileSize = 0 ∧
      (rotateBinlog cfg f w).1.binlogIndex = wrap32 (w.binlogIndex + 1) := by
  have hi := (@writeToBinlogIndex_sameCount cfg f.index
    { w with binlogIndex := wrap32 (w.binlogIndex + 1) }).index
  simp only [rotateBinlog]
  generalize writeToBinlogIndex cfg f.index { w with binlogIndex := _ } = r at hi ⊢
  have hn := @openNextWritableBinlog_index cfg f r.1
  split_ifs
  · exact ⟨rfl, hn.trans hi⟩
  · exact ⟨rfl, hn.trans hi⟩
  · exact ⟨rfl, hi⟩

/-- A call that begins while all other threads are outside. -/
theorem Inv.after_enter (h : Inv index n s) {t : ι} {c : BinlogCall}
    (hserial : ∀ u, u ≠ t → s.pc u = .outside) : Inv index n (enter s t c) := by
  unfold enter
  split
  · rename_i ht
    have hall : ∀ u, s.pc u = .outside := by
      intro u
      by_cases hu : u = t
      · rw [hu, ht]
      · exact hserial u hu
    have hnone : ∀ u, (s.pc u).isRotating = false := by
      intro u
      rw [hall u]
      rfl
    split
    · exact ⟨h.alone, h.below, h.behind⟩
    · rename_i f hf
      apply inv_of_one (fun u hu => hserial u hu)
      · intro
        exact h.below hnone
      · intro hrot
        cases hrot
  · exact h

omit [DecidableEq ι] in
theorem crosses_eq_false {s' : State ι}
    (h : s'.world.binlogFileSize < SYNC_BINLOG_FILE_MAX_SIZE ∨
      s.world.binlogFileSize = s'.world.binlogFileSize ∨
      SYNC_BINLOG_FILE_MAX_SIZE ≤ s.world.binlogFileSize) : crosses s s' = false := by
  rw [crosses, decide_eq_false_iff_not]
  intro hc
  omega

theorem enter_size (s : State ι) (t : ι) (c : BinlogCall) :
    (enter s t c).world.binlogFileSize = s.world.binlogFileSize := by
  unfold enter
  split
  · split <;> rfl
  · rfl

/-- The record's length is added: the thread goes on to rotate exactly if that crosses the
limit. -/
theorem Inv.add (h : Inv index n s) {t : ι} {c : BinlogCall} {fd : Loc}
    (ht : s.pc t = .flushed c fd) :
    Inv index (n + if crosses s (advance cfg p s t) then 1 else 0) (advance cfg p s t) := by
  have hne : s.pc t ≠ .outside := by simp [ht]
  obtain ⟨hsize, hindex⟩ := h.below (h.not_rotating hne (by rw [ht]; rfl))
  by_cases hlimit : SYNC_BINLOG_FILE_MAX_SIZE ≤ nextSize s.world c.text.length
  · have hc : crosses s (advance cfg p s t) = true := by
      simp only [crosses, advance, ht, hlimit, if_true, decide_eq_true_eq]
      exact ⟨hsize, trivial⟩
    rw [hc]
    simp only [advance, ht, hlimit, if_true]
    apply inv_of_one (fun u => h.others_outside hne)
    · intro hrot
      cases hrot
    · intro
      refine ⟨hlimit, ?_⟩
      dsimp only
      rw [hindex, wrap32_add, Nat.cast_add, ← add_assoc]
      rfl
  · have hc : crosses s (advance cfg p s t) = false := by
      apply crosses_eq_false
      left
      simp only [advance, ht, hlimit, if_false]
      exact not_le.mp hlimit
    rw [hc]
    simp only [advance, ht, hlimit, if_false]
    apply inv_of_one (fun u => h.others_outside hne)
    · intro
      exact ⟨not_le.mp hlimit, by simpa using hindex⟩
    · intro hrot
      cases hrot

theorem Inv.rotate (h : Inv index n s) {t : ι} {c : BinlogCall} {fd : Loc}
    (ht : s.pc t = .rotating c fd) :
    Inv index (n + if crosses s (advance cfg p s t) then 1 else 0) (advance cfg p s t) := by
  have hne : s.pc t ≠ .outside := by simp [ht]
  obtain ⟨hsize, hindex⟩ := h.behind t (by rw [ht]; rfl)
  obtain ⟨h0, hi⟩ := @rotateBinlog_count cfg c.faults.rotate s.world
  rw [crosses_eq_false (.inr (.inr hsize))]
  simp only [advance, ht]
  apply inv_of_one (fun u => h.others_outside hne)
  · intro
    refine ⟨by rw [h0]; decide, ?_⟩
    rw [hi, hindex]
    simp
  · intro hrot
    cases hrot

/-- One step of a serial run keeps the invariant, with a crossing more if it crosses. -/
theorem Inv.after_step (h : Inv index n s) {a : Action ι} (ha : Serial s a) :
    Inv index (n + if crosses s (step cfg p s a) then 1 else 0) (step cfg p s a) := by
  cases a with
  | call t c =>
    have hc : crosses s (step cfg p s (.call t c)) = false :=
      crosses_eq_false (.inr (.inl (enter_size s t c).symm))
    rw [hc]
    simpa [step] using h.after_enter ha
  | advance t =>
    have hsame (s' : State ι) (hs : advance cfg p s t = s') (hv : SameCount s.world s'.world)
        (hi : Inv index n s') :
        Inv index (n + if crosses s (advance cfg p s t) then 1 else 0) (advance cfg p s t) := by
      rw [hs, crosses_eq_false (.inr (.inl hv.size.symm))]
      simpa using hi
    cases ht : s.pc t with
    | outside =>
      apply hsame s
      · simp only [advance, ht]
      · exact ⟨rfl, rfl⟩
      · exact h
    | entered c fd =>
      have hne : s.pc t ≠ .outside := by simp [ht]
      have hr : (s.pc t).isRotating = false := by rw [ht]; rfl
      by_cases hf : c.faults.lock = true
      · apply hsame (s.move t .outside)
        · simp only [advance, ht, hf, if_true]
        · exact ⟨rfl, rfl⟩
        · exact h.move hne hr rfl ⟨rfl, rfl⟩
      · by_cases hg : grants s.locks fd p = true
        · apply hsame { s.move t (.locked c fd) with locks := acquire s.locks fd p }
          · simp only [advance, ht, hf, hg, if_true]
            rfl
          · exact ⟨rfl, rfl⟩
          · exact h.move hne hr rfl ⟨rfl, rfl⟩
        · apply hsame s
          · simp only [advance, ht, hf, hg]
            rfl
          · exact ⟨rfl, rfl⟩
          · exact h
    | locked c fd =>
      have hne : s.pc t ≠ .outside := by simp [ht]
      have hr : (s.pc t).isRotating = false := by rw [ht]; rfl
      have hv := printRecord_sameCount s.world c
      cases hx : (printRecord s.world c).2 with
      | error e =>
        apply hsame { s.move t (.releasing c fd e) with world := (printRecord s.world c).1 }
        · simp only [advance, ht]
          rw [← Prod.mk.eta (p := printRecord s.world c), hx]
        · exact hv
        · exact h.move hne hr rfl hv
      | ok u =>
        apply hsame { s.move t (.flushed c fd) with world := (printRecord s.world c).1 }
        · simp only [advance, ht]
          rw [← Prod.mk.eta (p := printRecord s.world c), hx]
        · exact hv
        · exact h.move hne hr rfl hv
    | flushed c fd => exact h.add ht
    | rotating c fd => exact h.rotate ht
    | releasing c fd r =>
      have hne : s.pc t ≠ .outside := by simp [ht]
      have hr : (s.pc t).isRotating = false := by rw [ht]; rfl
      have hw : SameCount s.world (if r = some 0 then { s.world with
          written := s.world.written ++ [c.record] } else s.world) := by
        split_ifs <;> exact ⟨rfl, rfl⟩
      by_cases hu : c.faults.unlock = true
      · apply hsame (s.move t .outside)
        · simp only [advance, ht, hu, if_true]
        · exact ⟨rfl, rfl⟩
        · exact h.move hne hr rfl ⟨rfl, rfl⟩
      · apply hsame { s.move t .outside with
          locks := release s.locks fd
          world := if r = some 0 then { s.world with written := s.world.written ++ [c.record] }
            else s.world }
        · simp only [advance, ht, hu]
          rfl
        · exact hw
        · exact h.move hne hr rfl hw

end Steps

section Runs
variable {cfg : Config} {p : Pid}

/-- A serial run keeps the invariant and counts its crossings. -/
theorem Inv.after_run {s : State ι} {index : ℤ} {n : ℕ} (h : Inv index n s) {as : List (Action ι)}
    (hm : Meets (step cfg p) Serial s as) :
    Inv index (n + crossings cfg p s as) (run (step cfg p) s as) := by
  induction as generalizing s n with
  | nil => exact h
  | cons a as ih =>
    have := ih (h.after_step hm.1) hm.2
    rwa [add_assoc] at this

/-- In every state of a run of calls that do not overlap one thread at a time is behind the
lock, and outside a rotation the index has advanced once for each crossing of the limit. -/
theorem writers_exclusive {s : State ι} (h : Start p s) {as : List (Action ι)}
    (hm : Meets (step cfg p) Serial s as) {bs : List (Action ι)} (hp : bs <+: as) :
    Exclusive (run (step cfg p) s bs) ∧
      ((∀ t, ((run (step cfg p) s bs).pc t).isRotating = false) →
        (run (step cfg p) s bs).world.binlogIndex =
          wrap32 (s.world.binlogIndex + crossings cfg p s bs)) := by
  have hi := h.inv.after_run (hm.of_prefix hp)
  rw [Nat.zero_add] at hi
  constructor
  · intro t u ht hu
    apply hi.alone t u
    · intro ho
      rw [ho] at ht
      cases ht
    · intro ho
      rw [ho] at hu
      cases hu
  · intro hr
    exact (hi.below hr).2

end Runs

end Writers

/-- Two threads, both outside, and a log one byte below the limit. -/
def fullState : State Bool where
  world := { sampleWorld with binlogFileSize := 1073741823 }
  locks := fun _ => none
  pc := fun _ => .outside

theorem fullState_start : Start 1 fullState := by
  constructor
  · intro t
    rfl
  · intro file
    exact .inl rfl
  · decide
  · decide +kernel

/-- One call from its beginning to its end. -/
def oneCall (t : Bool) : List (Action Bool) := .call t sampleCall :: List.replicate 5 (.advance t)

theorem fullState_exclusive :
    Exclusive (run (step sampleConfig 1) fullState (oneCall true)) ∧
      ((∀ t, ((run (step sampleConfig 1) fullState (oneCall true)).pc t).isRotating = false) →
        (run (step sampleConfig 1) fullState (oneCall true)).world.binlogIndex =
          wrap32 (fullState.world.binlogIndex +
            crossings sampleConfig 1 fullState (oneCall true))) := by
  have hm : Meets (step sampleConfig 1) Serial fullState (oneCall true) := by
    refine ⟨?_, trivial, trivial, trivial, trivial, trivial, trivial⟩
    intro u hu
    rfl
  exact writers_exclusive fullState_start hm (List.prefix_refl _)

/-- Both threads take the lock, and both find the limit reached before either rotates. -/
def overlappingCalls : List (Action Bool) :=
  [.call true sampleCall, .call false sampleCall, .advance true, .advance false, .advance true,
    .advance true, .advance false, .advance false, .advance true, .advance false]

theorem overlappingCalls_not_exclusive :
    ¬ Exclusive (run (step sampleConfig 1) fullState (overlappingCalls.take 4)) ∧
    crossings sampleConfig 1 fullState overlappingCalls = 1 ∧
    fullState.world.binlogIndex = 0 ∧
    (run (step sampleConfig 1) fullState overlappingCalls).world.binlogIndex = 2 := by
  refine ⟨?_, by decide +kernel, by decide +kernel, by decide +kernel⟩
  intro h
  have := h true false (by decide +kernel) (by decide +kernel)
  cases this

end DemoStorage.BinlogExclusion
