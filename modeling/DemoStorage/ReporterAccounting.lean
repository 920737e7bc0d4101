import DemoStorage.ByteStrings
import DemoStorage.ConditionedRuns
import DemoStorage.ThreadPools

/-!
# Accounting of reporters

`main` starts a reporter for each configured tracker, each reporter waits until all are
started, and at the end `main` waits until none is left. The counters are written as the
source has them: a start advances `g_tracker_server_count`, the end of a reporter advances
`g_tracker_reporter_count`, and each update is one step under `reporter_thread_lock`.
-/

namespace DemoStorage.ReporterAccounting
open ByteStrings ConditionedRuns ThreadPools

def FDFS_MAX_TRACKERS : ℕ := 16

/-- The number of entries of `g_tracker_server`, an `int`. -/
structure Trackers where
  count : ℕ
  int : (count : ℤ) ≤ INT_MAX

/-- Program points of `tracker_report_thread_entrance`. -/
inductive ReporterPc where
  | barrier
  | reporting
  | counting
  | exited
  deriving DecidableEq

/-- Program points of `main` from `tracker_report_thread_start` on, with the number of
trackers the start has dealt with. -/
inductive MainPc where
  | creating (k : ℕ)
  | counting (k : ℕ)
  | accepting
  | waiting
  | failed
  | finished
  deriving DecidableEq

/-- The last two fields are ghosts: how many reporters were counted at their start and at
their end. -/
structure State where
  serverCount : ℤ
  reporterCount : ℤ
  continueFlag : Bool
  main : MainPc
  reporters : List ReporterPc
  started : ℕ
  exited : ℕ

inductive Action where
  /-- a step of `main`; `badSocket` is an accept that fails with `EBADF`, and `others` says that
  threads of other kinds are left -/
  | main (createFails badSocket others : Bool)
  /-- a step of a reporter; `fails` is a failure that clears `g_continue_flag` -/
  | reporter (i : ℕ) (fails : Bool)
  /-- a signal, or a failure in some other thread -/
  | stop

def initial (n : Trackers) : State := ⟨n.count, 0, true, .creating 0, [], 0, 0⟩

def mainStep (n : Trackers) (s : State) (createFails badSocket others : Bool) : State :=
  match s.main with
  | .creating k =>
    -- the end of the loop was computed before its first turn
    if n.count ≤ k then { s with main := .accepting }
    else if createFails then { s with main := .failed }
    else { s with reporters := s.reporters ++ [.barrier], main := .counting k }
  | .counting k => { s with
      serverCount := wrap32 (s.serverCount + 1), started := s.started + 1, main := .creating (k + 1) }
  | .accepting =>
    if s.continueFlag = true ∧ badSocket = false then s else { s with main := .waiting }
  | .waiting => if 0 < s.reporterCount ∨ others then s else { s with main := .finished }
  -- `main` returns
  | .failed => s
  | .finished => s

/-- The waiting loop at the start of a reporter goes on. -/
def barrierClosed (s : State) : Bool := s.continueFlag && decide (s.reporterCount < s.serverCount)

def reporterStep (s : State) (i : ℕ) (fails : Bool) : State :=
  match s.reporters[i]? with
  | some .barrier =>
    if barrierClosed s then s else { s with reporters := s.reporters.set i .reporting }
  | some .reporting =>
    if s.continueFlag = false then { s with reporters := s.reporters.set i .counting }
    else if fails then
      { s with continueFlag := false, reporters := s.reporters.set i .counting }
    else s
  | some .counting => { s with
      reporterCount := wrap32 (s.reporterCount + 1), exited := s.exited + 1
      reporters := s.reporters.set i .exited }
  | some .exited => s
  | none => s

def step (n : Trackers) (s : State) : Action → State
  | .main createFails badSocket others => mainStep n s createFails badSocket others
  | .reporter i fails => reporterStep s i fails
  | .stop => { s with continueFlag := false }

/-- What the two counters owe, and what barrier and final wait take from them. -/
structure Accounted (n : Trackers) (s : State) : Prop where
  server : s.serverCount = n.count
  reporter : s.reporterCount = s.started - s.exited
  barrier : s.started = n.count → ¬ s.reporterCount < s.serverCount
  wait : 0 < s.reporterCount ↔ s.started ≠ s.exited

/-- The step is an update of one of the counters. -/
def isUpdate (s : State) : Action → Prop
  | .main _ _ _ => ∃ k, s.main = .counting k
  | .reporter i _ => s.reporters[i]? = some .counting
  | .stop => False

/-- No counter has been updated yet. -/
structure Untouched (n : Trackers) (s : State) : Prop where
  server : s.serverCount = n.count
  reporter : s.reporterCount = 0
  started : s.started = 0
  exited : s.exited = 0

section Steps
variable {n : Trackers} {s : State}

theorem Untouched.accounted (h : Untouched n s) : Accounted n s := by
  constructor
  · exact h.server
  · rw [h.reporter, h.started, h.exited]
    rfl
  · intro hn
    rw [h.reporter, h.server, ← hn, h.started]
    decide
  · rw [h.reporter, h.started, h.exited]
    decide

theorem Untouched.after_step (h : Untouched n s) {a : Action} (ha : ¬ isUpdate s a) :
    Untouched n (step n s a) := by
  cases a with
  | main createFails badSocket others =>
    cases hm : s.main with
    | creating k =>
      simp only [step, mainStep, hm]
      split_ifs
      · exact ⟨h.server, h.reporter, h.started, h.exited⟩
      · exact ⟨h.server, h.reporter, h.started, h.exited⟩
      · exact ⟨h.server, h.reporter, h.started, h.exited⟩
    | counting k => exact absurd ⟨k, hm⟩ ha
    | accepting =>
      simp only [step, mainStep, hm]
      split_ifs
      · exact h
      · exact ⟨h.server, h.reporter, h.started, h.exited⟩
    | waiting =>
      simp only [step, mainStep, hm]
      split_ifs
      · exact h
      · exact ⟨h.server, h.reporter, h.started, h.exited⟩
    | failed => simpa only [step, mainStep, hm] using h
    | finished => simpa only [step, mainStep, hm] using h
  | reporter i fails =>
    cases hi : s.reporters[i]? with
    | none => simpa only [step, reporterStep, hi] using h
    | some pc =>
      cases pc with
      | barrier =>
        simp only [step, reporterStep, hi]
        split_ifs
        · exact h
        · exact ⟨h.server, h.reporter, h.started, h.exited⟩
      | reporting =>
        simp only [step, reporterStep, hi]
        split_ifs
        · exact ⟨h.server, h.reporter, h.started, h.exited⟩
        · exact ⟨h.server, h.reporter, h.started, h.exited⟩
        · exact h
      | counting => exact absurd hi ha
      | exited => simpa only [step, reporterStep, hi] using h
  | stop => exact ⟨h.server, h.reporter, h.started, h.exited⟩

/-- The first update leaves a wrong count: a start in `g_tracker_server_count`, the end of a
reporter in `g_tracker_reporter_count`. -/
theorem Untouched.not_accounted (h : Untouched n s) {a : Action} (ha : isUpdate s a) :
    ¬ Accounted n (step n s a) := by
  intro hacc
  cases a with
  | main createFails badSocket others =>
    obtain ⟨k, hm⟩ := ha
    have hserver := hacc.server
    have hint := n.int
    simp only [step, mainStep, hm, h.server, wrap32, INT_MAX] at hserver hint
    omega
  | reporter i fails =>
    have hi : s.reporters[i]? = some .counting := ha
    have hreporter := hacc.reporter
    simp only [step, reporterStep, hi, h.reporter, h.started, h.exited] at hreporter
    exact absurd hreporter (by decide)
  | stop => exact ha

/-- How far the start has come. -/
def MainPc.startedAt (count : ℕ) : MainPc → ℕ → Prop
  | .creating k, m => m = k ∧ k ≤ count
  | .counting k, m => m = k ∧ k < count
  | _, m => m ≤ count

/-- What keeps the barrier shut: the servers and the starts are on one side of its test, and
no reporter has ended while the flag is set. -/
structure Shut (n : Trackers) (s : State) : Prop where
  server : s.serverCount = n.count + s.started
  started : s.main.startedAt n.count s.started
  barrier : s.continueFlag = true → s.reporterCount = 0 ∧ ∀ pc ∈ s.reporters, pc = .barrier

theorem shut_initial (n : Trackers) : Shut n (initial n) := by
  constructor
  · simp [initial]
  · exact ⟨rfl, Nat.zero_le _⟩
  · intro
    exact ⟨rfl, by simp [initial]⟩

theorem MainPc.startedAt.le {count m : ℕ} {pc : MainPc} (h : pc.startedAt count m) : m ≤ count := by
  cases pc with
  | creating k => exact h.1.trans_le h.2
  | counting k => exact h.1.trans_le h.2.le
  | accepting => exact h
  | waiting => exact h
  | failed => exact h
  | finished => exact h

theorem Shut.main_step (h : Shut n s) (hn : n.count ≤ FDFS_MAX_TRACKERS)
    (createFails badSocket others : Bool) :
    Shut n (mainStep n s createFails badSocket others) := by
  have hstarted := h.started
  cases hm : s.main with
  | creating k =>
    rw [hm] at hstarted
    simp only [mainStep, hm]
    split_ifs with hk
    · exact ⟨h.server, hstarted.1.trans_le hstarted.2, h.barrier⟩
    · exact ⟨h.server, hstarted.1.trans_le hstarted.2, h.barrier⟩
    · refine ⟨h.server, ⟨hstarted.1, not_le.mp hk⟩, fun hf => ?_⟩
      obtain ⟨h0, hall⟩ := h.barrier hf
      refine ⟨h0, fun pc hpc => ?_⟩
      rcases List.mem_append.mp hpc with hold | hnew
      · exact hall pc hold
      · exact List.mem_singleton.mp hnew
  | counting k =>
    rw [hm] at hstarted
    obtain ⟨hk, hlt⟩ := hstarted
    simp only [mainStep, hm]
    refine ⟨?_, ⟨congrArg (· + 1) hk, hlt⟩, h.barrier⟩
    have hserver := h.server
    simp only [FDFS_MAX_TRACKERS] at hn
    dsimp only
    rw [wrap32_eq (by omega) (by omega), hserver]
    omega
  | accepting =>
    rw [hm] at hstarted
    simp only [mainStep, hm]
    split_ifs
    · exact h
    · exact ⟨h.server, hstarted, h.barrier⟩
  | waiting =>
    rw [hm] at hstarted
    simp only [mainStep, hm]
    split_ifs
    · exact h
    · exact ⟨h.server, hstarted, h.barrier⟩
  | failed => simpa only [mainStep, hm] using h
  | finished => simpa only [mainStep, hm] using h

theorem Shut.reporter_step (h : Shut n s) (hpos : 0 < n.count) (i : ℕ) (fails : Bool) :
    Shut n (reporterStep s i fails) := by
  cases hf : s.continueFlag with
  | true =>
    obtain ⟨h0, hall⟩ := h.barrier hf
    cases hi : s.reporters[i]? with
    | none => simpa only [reporterStep, hi] using h
    | some pc =>
      obtain rfl := hall pc (List.mem_of_getElem? hi)
      have hclosed : barrierClosed s = true := by
        have := h.server
        simp only [barrierClosed, hf, h0, Bool.true_and, decide_eq_true_eq]
        omega
      simpa only [reporterStep, hi, hclosed, if_true] using h
  | false =>
    have hclosed : barrierClosed s = false := by simp [barrierClosed, hf]
    cases hi : s.reporters[i]? with
    | none => simpa only [reporterStep, hi] using h
    | some pc =>
      cases pc with
      | barrier =>
        simp only [reporterStep, hi, hclosed]
        exact ⟨h.server, h.started, fun ht => absurd ht (by simp [hf])⟩
      | reporting =>
        simp only [reporterStep, hi, hf, if_true]
        exact ⟨h.server, h.started, fun ht => absurd ht (by simp)⟩
      | counting =>
        simp only [reporterStep, hi]
        exact ⟨h.server, h.started, fun ht => absurd ht (by simp [hf])⟩
      | exited => simpa only [reporterStep, hi] using h

theorem Shut.after_step (h : Shut n s) (hpos : 0 < n.count) (hn : n.count ≤ FDFS_MAX_TRACKERS)
    (a : Action) : Shut n (step n s a) := by
  cases a with
  | main createFails badSocket others => exact h.main_step hn createFails badSocket others
  | reporter i fails => exact h.reporter_step hpos i fails
  | stop => exact ⟨h.server, h.started, fun hf => by cases hf⟩

end Steps

section Runs

/-- As long as the flag is set every reporter stays at the barrier. -/
theorem barrier_never_opens {n : Trackers} (hpos : 0 < n.count) (hn : n.count ≤ FDFS_MAX_TRACKERS)
    (as : List Action) (hf : (run (step n) (initial n) as).continueFlag = true) :
    ∀ pc ∈ (run (step n) (initial n) as).reporters, pc = .barrier := by
  have h : Shut n (run (step n) (initial n) as) :=
    run_invariant (shut_initial n) (fun _ a hs => hs.after_step hpos hn a) as
  exact (h.barrier hf).2

/-- The counters are right in every state of a run exactly when the run updates none. -/
theorem accounted_iff_no_update (n : Trackers) (as : List Action) :
    (∀ bs, bs <+: as → Accounted n (run (step n) (initial n) bs)) ↔
      Meets (step n) (fun s a => ¬ isUpdate s a) (initial n) as := by
  apply meets_iff_always (I := Untouched n)
  · exact ⟨rfl, rfl, rfl, rfl⟩
  · intro s hs
    exact hs.accounted
  · intro s a hs ha
    exact hs.after_step ha
  · intro s a hs ha
    exact hs.not_accounted (not_not.mp ha)

def oneTracker : Trackers := ⟨1, by decide⟩

/-- Its reporter is created and tries the barrier three times. -/
theorem barrier_never_opens_oneTracker :
    let s := run (step oneTracker) (initial oneTracker) ([.main false false false, .main false false false,
      .main false false false] ++ List.replicate 3 (.reporter 0 false))
    s.reporters.length = 1 ∧ ∀ pc ∈ s.reporters, pc = .barrier :=
  ⟨by decide, barrier_never_opens (by decide) (by decide) _ (by decide)⟩

/-- With one tracker the start of its reporter already miscounts. -/
theorem oneTracker_not_accounted :
    ¬ Accounted oneTracker (run (step oneTracker) (initial oneTracker)
      [.main false false false, .main false false false]) := by
  intro h
  exact absurd h.server (by decide)

end Runs

section Shutdown
variable {n : Trackers} {s : State}

/-- How many reporters the start has created. -/
def MainPc.createdAt (count : ℕ) : MainPc → ℕ → Prop
  | .creating k, m => m = k ∧ k ≤ count
  | .counting k, m => m = k + 1 ∧ k < count
  | _, m => m ≤ count

theorem MainPc.createdAt.le {count m : ℕ} {pc : MainPc} (h : pc.createdAt count m) : m ≤ count := by
  cases pc with
  | creating k => exact h.1.trans_le h.2
  | counting k => exact h.1.trans_le h.2
  | accepting => exact h
  | waiting => exact h
  | failed => exact h
  | finished => exact h

/-- The final wait reads off how many reporters have ended. -/
structure CountsEnds (n : Trackers) (s : State) : Prop where
  created : s.main.createdAt n.count s.reporters.length
  exited : s.reporters.countP (fun pc => decide (pc = .exited)) = s.exited
  reporter : s.reporterCount = s.exited

theorem countsEnds_initial (n : Trackers) : CountsEnds n (initial n) :=
  ⟨⟨rfl, Nat.zero_le _⟩, rfl, rfl⟩

theorem CountsEnds.main_step (h : CountsEnds n s) (createFails badSocket others : Bool) :
    CountsEnds n (mainStep n s createFails badSocket others) := by
  have hcreated := h.created
  cases hm : s.main with
  | creating k =>
    rw [hm] at hcreated
    simp only [mainStep, hm]
    split_ifs with hk
    · exact ⟨hcreated.1.trans_le hcreated.2, h.exited, h.reporter⟩
    · exact ⟨hcreated.1.trans_le hcreated.2, h.exited, h.reporter⟩
    · refine ⟨⟨?_, not_le.mp hk⟩, ?_, h.reporter⟩
      · rw [List.length_append, hcreated.1]
        rfl
      · rw [List.countP_append, h.exited]
        rfl
  | counting k =>
    rw [hm] at hcreated
    simp only [mainStep, hm]
    exact ⟨hcreated, h.exited, h.reporter⟩
  | accepting | waiting =>
    rw [hm] at hcreated
    simp only [mainStep, hm]
    split_ifs
    · exact h
    · exact ⟨hcreated, h.exited, h.reporter⟩
  | failed | finished => simpa only [mainStep, hm] using h

/-- A reporter moves, and does not end yet. -/
theorem CountsEnds.move (h : CountsEnds n s) {i : ℕ} {a b : ReporterPc} (go : Bool)
    (hi : s.reporters[i]? = some a) (ha : a ≠ .exited) (hb : b ≠ .exited) :
    CountsEnds n { s with continueFlag := go, reporters := s.reporters.set i b } where
  created := by simpa using h.created
  exited := by
    rw [countP_move_same hi (by simp [ha, hb]), h.exited]
  reporter := h.reporter

theorem CountsEnds.reporter_step (h : CountsEnds n s) (i : ℕ) (fails : Bool) :
    CountsEnds n (reporterStep s i fails) := by
  cases hi : s.reporters[i]? with
  | none => simpa only [reporterStep, hi] using h
  | some pc =>
    cases pc with
    | barrier =>
      simp only [reporterStep, hi]
      split_ifs
      · exact h
      · exact h.move _ hi nofun nofun
    | reporting =>
      simp only [reporterStep, hi]
      split_ifs
      · exact h.move _ hi nofun nofun
      · exact h.move _ hi nofun nofun
      · exact h
    | counting =>
      have hmove := countP_move hi (fun pc => decide (pc = .exited)) .exited
      have hbound : s.exited + 1 ≤ n.count := by
        have hle := List.countP_le_length (p := fun pc => decide (pc = ReporterPc.exited))
          (l := s.reporters.set i .exited)
        have hall := h.created.le
        rw [List.length_set] at hle
        have hexited := h.exited
        simp at hmove
        omega
      have hint := n.int
      rw [INT_MAX] at hint
      simp only [reporterStep, hi]
      refine ⟨by simpa using h.created, ?_, ?_⟩
      · have hexited := h.exited
        simp at hmove
        dsimp only
        omega
      · dsimp only
        rw [h.reporter, wrap32_eq (by omega) (by omega)]
        push_cast
        rfl
    | exited => simpa only [reporterStep, hi] using h

theorem CountsEnds.after_step (h : CountsEnds n s) (a : Action) : CountsEnds n (step n s a) := by
  cases a with
  | main createFails badSocket others => exact h.main_step createFails badSocket others
  | reporter i fails => exact h.reporter_step i fails
  | stop => exact ⟨h.created, h.exited, h.reporter⟩

@[simp] theorem reporterStep_main (s : State) (i : ℕ) (fails : Bool) :
    (reporterStep s i fails).main = s.main := by
  unfold reporterStep
  split <;> (try split_ifs) <;> rfl

/-- A reporter has ended before `main` could. -/
structure Hung (n : Trackers) (s : State) : Prop where
  counts : CountsEnds n s
  ended : 0 < s.exited
  running : s.main ≠ .finished

theorem Hung.after_step (h : Hung n s) (a : Action) : Hung n (step n s a) := by
  have hcount : 0 < s.reporterCount := by
    rw [h.counts.reporter]
    exact_mod_cast h.ended
  refine ⟨h.counts.after_step a, ?_, ?_⟩
  · cases a with
    | main createFails badSocket others =>
      have hsame : (mainStep n s createFails badSocket others).exited = s.exited := by
        unfold mainStep
        split <;> (try split_ifs) <;> rfl
      exact hsame ▸ h.ended
    | reporter i fails =>
      have hle : s.exited ≤ (reporterStep s i fails).exited := by
        unfold reporterStep
        split <;> (try split_ifs) <;> first | exact le_refl _ | exact Nat.le_succ _
      exact h.ended.trans_le hle
    | stop => exact h.ended
  · cases a with
    | main createFails badSocket others =>
      unfold step mainStep
      dsimp only
      split
      · split_ifs <;> nofun
      · nofun
      · split_ifs
        · exact h.running
        · nofun
      · rw [if_pos (.inl hcount)]
        exact h.running
      · exact h.running
      · exact h.running
    | reporter i fails =>
      rw [step, reporterStep_main]
      exact h.running
    | stop => exact h.running

/-- `main` has come to accept connections, and has not returned. -/
def MainPc.serving (pc : MainPc) : Prop := pc = .accepting ∨ pc = .waiting

theorem Hung.serving_step (h : Hung n s) (hs : s.main.serving) (a : Action) :
    (step n s a).main.serving := by
  have hcount : 0 < s.reporterCount := by
    rw [h.counts.reporter]
    exact_mod_cast h.ended
  cases a with
  | main createFails badSocket others =>
    obtain hm | hm := hs
    · simp only [step, mainStep, hm]
      split_ifs
      · exact .inl hm
      · exact .inr rfl
    · simp only [step, mainStep, hm, if_pos (Or.inl hcount)]
      exact .inr rfl
  | reporter i fails =>
    rw [step, reporterStep_main]
    exact hs
  | stop => exact hs

/-- Once a reporter has been counted at its end, a `main` that has not finished by then never
finishes: its last loop waits for the count to come down, and it only goes up. Its start may
still fail; where it accepts connections by then, it never returns. -/
theorem shutdown_hangs (n : Trackers) (as bs : List Action)
    (hended : 0 < (run (step n) (initial n) as).exited)
    (hrunning : (run (step n) (initial n) as).main ≠ .finished) :
    (run (step n) (initial n) (as ++ bs)).main ≠ .finished ∧
      ((run (step n) (initial n) as).main.serving →
        (run (step n) (initial n) (as ++ bs)).main.serving) := by
  have hcounts : CountsEnds n (run (step n) (initial n) as) :=
    run_invariant (countsEnds_initial n) (fun _ a h => h.after_step a) as
  rw [run_append]
  refine ⟨(run_invariant (I := Hung n) ⟨hcounts, hended, hrunning⟩
    (fun _ a h => h.after_step a) bs).running, fun hs => ?_⟩
  have hboth := run_invariant (I := fun s => Hung n s ∧ s.main.serving)
    ⟨⟨hcounts, hended, hrunning⟩, hs⟩
    (fun _ a h => ⟨h.1.after_step a, h.1.serving_step h.2 a⟩) bs
  exact hboth.2

/-- One tracker: its reporter sees the stop before `main` has come to its wait. -/
def reporterFirst : List Action :=
  [.main false false false, .main false false false, .main false false false, .stop, .reporter 0 false,
    .reporter 0 false, .reporter 0 false, .main false false false]

theorem shutdown_hangs_reporterFirst :
    (run (step oneTracker) (initial oneTracker)
        (reporterFirst ++ List.replicate 9 (.main false false false))).main ≠ .finished ∧
      ((run (step oneTracker) (initial oneTracker) reporterFirst).main.serving →
        (run (step oneTracker) (initial oneTracker)
          (reporterFirst ++ List.replicate 9 (.main false false false))).main.serving) :=
  shutdown_hangs oneTracker reporterFirst _ (by decide) (by decide)

end Shutdown

end DemoStorage.ReporterAccounting
