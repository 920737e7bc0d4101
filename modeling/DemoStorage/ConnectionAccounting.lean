import DemoStorage.ConditionedRuns
import DemoStorage.LoadedSettings
import DemoStorage.ThreadPools

/-!
# Accounting of connections

`main` accepts connections and creates a thread for each, up to a limit; a thread that has
served its connection takes itself off the count. Both changes of `g_storage_thread_count`
are made under `g_storage_thread_lock`, and the creation of a thread shares its critical
section with the increment. `main` reads the count without the lock once it has left the
accept loop. The calls on the mutex succeed: a holder keeps the others waiting.
-/

namespace DemoStorage.ConnectionAccounting
open ByteStrings ConditionedRuns ThreadPools
open IniFiles (IniQsort IniFaults)
open DaemonState (World)
open LoadedSettings (LoadEnv Settings storageLoadFromConfFile loaded_of_success)

/-- `g_max_connections` as the configuration leaves it. -/
structure Limit where
  maxConnections : ℤ
  pos : 0 < maxConnections
  int : maxConnections ≤ INT_MAX

/-- The limit that is loaded. -/
def Limit.ofSettings {q : IniQsort} {f : IniFaults} {env : LoadEnv} {text : Bytes} {w : World}
    {g : Settings} (h : (storageLoadFromConfFile q f env text w g).1 = 0) : Limit where
  maxConnections := (storageLoadFromConfFile q f env text w g).2.maxConnections
  pos := (loaded_of_success h).positive.2.2.1
  int := (loaded_of_success h).positive.2.2.2

/-- Program points of `storage_thread_entrance`; its request loop is one of them. -/
inductive ThreadPc where
  | serving
  | locking
  | counting
  | unlocking
  | gone
  deriving DecidableEq

/-- Program points of `main` from the accept loop on. -/
inductive MainPc where
  | accepting
  | locking
  | testing
  | creating
  | counting
  | unlocking
  | waiting
  | destroying
  | closing
  | exited
  deriving DecidableEq

inductive Holder where
  | main
  | thread (i : ℕ)
  deriving DecidableEq

structure State where
  threadCount : ℤ
  continueFlag : Bool
  lock : Option Holder
  main : MainPc
  threads : List ThreadPc

/-- What `nbaccept` comes back with; all errors but a bad descriptor are tried again. -/
inductive Accepted where
  | connection
  | retry
  | badDescriptor

/-- What a step of `main` finds: a connection, a failure of `pthread_create`, the counters
of the other threads. -/
structure Findings where
  accepted : Accepted := .connection
  createFails : Bool := false
  reporterCount : ℤ := 0
  syncThreadCount : ℤ := 0

inductive Action where
  | main (f : Findings)
  /-- a step of a service thread; `leave` ends its request loop -/
  | thread (i : ℕ) (leave : Bool)
  /-- a signal, or a failure in some thread, clears `g_continue_flag` -/
  | stop

def initial : State := ⟨0, true, none, .accepting, []⟩

def mainStep (limit : Limit) (s : State) (f : Findings) : State :=
  match s.main with
  | .accepting =>
    if s.continueFlag = false then { s with main := .waiting }
    else match f.accepted with
      | .connection => { s with main := .locking }
      | .retry => s
      | .badDescriptor => { s with main := .waiting }
  | .locking => if s.lock = none then { s with lock := some .main, main := .testing } else s
  | .testing =>
    if limit.maxConnections ≤ s.threadCount then { s with main := .unlocking }
    else { s with main := .creating }
  | .creating =>
    if f.createFails then { s with main := .unlocking }
    else { s with threads := s.threads ++ [.serving], main := .counting }
  | .counting => { s with threadCount := wrap32 (s.threadCount + 1), main := .unlocking }
  | .unlocking => { s with lock := none, main := .accepting }
  | .waiting =>
    if s.threadCount ≠ 0 ∨ 0 < f.reporterCount ∨ 0 < f.syncThreadCount then s
    else { s with main := .destroying }
  | .destroying => { s with main := .closing }
  | .closing => { s with main := .exited }
  | .exited => s

def threadStep (s : State) (i : ℕ) (leave : Bool) : State :=
  match s.threads[i]? with
  | some .serving => if leave then { s with threads := s.threads.set i .locking } else s
  | some .locking =>
    if s.lock = none then
      { s with lock := some (.thread i), threads := s.threads.set i .counting }
    else s
  | some .counting => { s with
      threadCount := wrap32 (s.threadCount - 1), threads := s.threads.set i .unlocking }
  | some .unlocking => { s with lock := none, threads := s.threads.set i .gone }
  | some .gone => s
  | none => s

def step (limit : Limit) (s : State) : Action → State
  | .main f => mainStep limit s f
  | .thread i leave => threadStep s i leave
  | .stop => { s with continueFlag := false }

/-- A thread that has not run its decrement. -/
def ThreadPc.live : ThreadPc → Bool
  | .serving => true
  | .locking => true
  | .counting => true
  | _ => false

def ThreadPc.holds : ThreadPc → Bool
  | .counting => true
  | .unlocking => true
  | _ => false

def MainPc.holds : MainPc → Bool
  | .testing => true
  | .creating => true
  | .counting => true
  | .unlocking => true
  | _ => false

/-- Room `main` has found for a thread and not filled yet. -/
def MainPc.claimed : MainPc → ℤ
  | .creating => 1
  | .counting => 1
  | _ => 0

/-- A thread that is created and not counted yet. -/
def MainPc.uncounted : MainPc → ℤ
  | .counting => 1
  | _ => 0

/-- `main` is at or behind the call of `storage_sync_destroy`. -/
def MainPc.finishing : MainPc → Bool
  | .destroying => true
  | .closing => true
  | .exited => true
  | _ => false

/-- Only the request loop calls `storage_binlog_write` and `storage_write_to_stat_file`. -/
def ThreadPc.canWrite : ThreadPc → Bool
  | .serving => true
  | _ => false

def liveThreads (s : State) : ℕ := s.threads.countP ThreadPc.live

structure Inv (limit : Limit) (s : State) : Prop where
  mainHolds : s.lock = some .main ↔ s.main.holds = true
  threadHolds : ∀ i, s.lock = some (.thread i) ↔ (s.threads[i]?.map ThreadPc.holds) = some true
  count : s.threadCount + s.main.uncounted = liveThreads s
  room : s.threadCount + s.main.claimed ≤ limit.maxConnections
  finished : s.main.finishing = true → liveThreads s = 0

theorem inv_initial (limit : Limit) : Inv limit initial := by
  have := limit.pos
  constructor
  · simp [initial, MainPc.holds]
  · simp [initial]
  · rfl
  · simp only [initial, MainPc.claimed]
    omega
  · intro h
    cases h

section Steps
variable {limit : Limit} {s : State}

/-- While `main` holds the lock no thread does. -/
theorem Inv.thread_not_holds (h : Inv limit s) (hm : s.main.holds = true) (i : ℕ) :
    (s.threads[i]?.map ThreadPc.holds) ≠ some true := by
  intro ht
  have h1 := h.mainHolds.mpr hm
  have h2 := (h.threadHolds i).mpr ht
  rw [h1] at h2
  cases h2

theorem Inv.main_not_holds (h : Inv limit s) {i : ℕ} {pc : ThreadPc}
    (hi : s.threads[i]? = some pc) (hp : pc.holds = true) : s.main.holds = false := by
  have h1 := (h.threadHolds i).mpr (by simp [hi, hp])
  by_contra hm
  have h2 := h.mainHolds.mpr (by simpa using hm)
  rw [h1] at h2
  cases h2

theorem uncounted_of_not_holds {pc : MainPc} (h : pc.holds = false) : pc.uncounted = 0 := by
  cases pc <;> first | rfl | cases h

theorem claimed_of_not_holds {pc : MainPc} (h : pc.holds = false) : pc.claimed = 0 := by
  cases pc <;> first | rfl | cases h

/-- A step of `main` that leaves lock, count and threads alone. -/
theorem Inv.move_main (h : Inv limit s) {pc : MainPc} (hh : pc.holds = s.main.holds)
    (hu : pc.uncounted = s.main.uncounted)
    (hr : s.threadCount + pc.claimed ≤ limit.maxConnections)
    (hf : pc.finishing = true → liveThreads s = 0) : Inv limit { s with main := pc } := by
  constructor
  · rw [hh]
    exact h.mainHolds
  · exact h.threadHolds
  · rw [hu]
    exact h.count
  · exact hr
  · exact hf

/-- `main` takes the free lock. -/
theorem Inv.lock_main (h : Inv limit s) (hl : s.lock = none) (hm : s.main = .locking) :
    Inv limit { s with lock := some .main, main := .testing } := by
  have hc := h.count
  have hr := h.room
  rw [hm] at hc hr
  constructor
  · simp [MainPc.holds]
  · intro i
    have := h.threadHolds i
    rw [hl] at this
    simpa using this
  · exact hc
  · exact hr
  · intro hf
    cases hf

theorem Inv.unlock_main (h : Inv limit s) (hm : s.main = .unlocking) :
    Inv limit { s with lock := none, main := .accepting } := by
  have hc := h.count
  have hr := h.room
  have hno := h.thread_not_holds (by rw [hm]; rfl)
  rw [hm] at hc hr
  constructor
  · simp [MainPc.holds]
  · intro i
    simpa using hno i
  · exact hc
  · exact hr
  · intro hf
    cases hf

/-- `main` creates a thread: it counts as live before it is counted. -/
theorem Inv.create (h : Inv limit s) (hm : s.main = .creating) :
    Inv limit { s with threads := s.threads ++ [.serving], main := .counting } := by
  have hc := h.count
  have hr := h.room
  have hmain := h.mainHolds
  rw [hm] at hc hr hmain
  constructor
  · exact hmain
  · intro i
    rw [get_create]
    by_cases hi : i = s.threads.length
    · have hno := h.threadHolds i
      rw [List.getElem?_eq_none (by omega)] at hno
      simpa [hi, ThreadPc.holds] using hno
    · rw [if_neg hi]
      exact h.threadHolds i
  · simp only [liveThreads, MainPc.uncounted, List.countP_append] at hc ⊢
    simp [ThreadPc.live]
    omega
  · exact hr
  · intro hf
    cases hf

theorem Inv.count_main (h : Inv limit s) (hm : s.main = .counting) :
    Inv limit { s with threadCount := wrap32 (s.threadCount + 1), main := .unlocking } := by
  have hc := h.count
  have hr := h.room
  have hmain := h.mainHolds
  have hint := limit.int
  rw [hm] at hc hr hmain
  simp only [MainPc.uncounted, MainPc.claimed, INT_MAX] at hc hr hint
  have hw : wrap32 (s.threadCount + 1) = s.threadCount + 1 := wrap32_eq (by omega) (by omega)
  rw [hw]
  constructor
  · exact hmain
  · exact h.threadHolds
  · simpa [MainPc.uncounted, liveThreads] using hc
  · simpa [MainPc.claimed] using hr
  · intro hf
    cases hf

theorem mainStep_inv (h : Inv limit s) (f : Findings) : Inv limit (mainStep limit s f) := by
  have hr := h.room
  cases hm : s.main with
  | accepting =>
    rw [hm] at hr
    simp only [mainStep, hm]
    split_ifs
    · exact h.move_main (by rw [hm]; rfl) (by rw [hm]; rfl) hr (by simp [MainPc.finishing])
    · cases f.accepted with
      | connection =>
        exact h.move_main (by rw [hm]; rfl) (by rw [hm]; rfl) hr (by simp [MainPc.finishing])
      | retry => exact h
      | badDescriptor =>
        exact h.move_main (by rw [hm]; rfl) (by rw [hm]; rfl) hr (by simp [MainPc.finishing])
  | locking =>
    simp only [mainStep, hm]
    split_ifs with hl
    · exact h.lock_main hl hm
    · exact h
  | testing =>
    simp only [mainStep, hm]
    rw [hm] at hr
    split_ifs with ht
    · exact h.move_main (by rw [hm]; rfl) (by rw [hm]; rfl) hr (by simp [MainPc.finishing])
    · apply h.move_main (by rw [hm]; rfl) (by rw [hm]; rfl)
      · simp only [MainPc.claimed]
        omega
      · simp [MainPc.finishing]
  | creating =>
    simp only [mainStep, hm]
    split_ifs
    · apply h.move_main (by rw [hm]; rfl) (by rw [hm]; rfl)
      · rw [hm] at hr
        simp only [MainPc.claimed] at hr ⊢
        omega
      · simp [MainPc.finishing]
    · exact h.create hm
  | counting =>
    simp only [mainStep, hm]
    exact h.count_main hm
  | unlocking =>
    simp only [mainStep, hm]
    exact h.unlock_main hm
  | waiting =>
    have hc := h.count
    simp only [mainStep, hm]
    rw [hm] at hr hc
    split_ifs with hw
    · exact h
    · -- the count is exact here: `main` is not between a creation and its increment
      have hlive : liveThreads s = 0 := by
        simp only [MainPc.uncounted] at hc
        omega
      exact h.move_main (by rw [hm]; rfl) (by rw [hm]; rfl) (by exact hr) (fun _ => hlive)
  | destroying =>
    have hf := h.finished (by rw [hm]; rfl)
    simp only [mainStep, hm]
    rw [hm] at hr
    exact h.move_main (by rw [hm]; rfl) (by rw [hm]; rfl) hr (fun _ => hf)
  | closing =>
    have hf := h.finished (by rw [hm]; rfl)
    simp only [mainStep, hm]
    rw [hm] at hr
    exact h.move_main (by rw [hm]; rfl) (by rw [hm]; rfl) hr (fun _ => hf)
  | exited =>
    simp only [mainStep, hm]
    exact h

/-- A step of a thread that leaves lock and count alone. -/
theorem Inv.move_thread (h : Inv limit s) {i : ℕ} {a b : ThreadPc} (hi : s.threads[i]? = some a)
    (hh : a.holds = b.holds) (hlive : a.live = b.live) :
    Inv limit { s with threads := s.threads.set i b } := by
  have hn : liveThreads { s with threads := s.threads.set i b } = liveThreads s :=
    countP_move_same hi hlive
  constructor
  · exact h.mainHolds
  · intro j
    rw [get_move hi]
    by_cases hj : j = i
    · have := h.threadHolds i
      rw [hi] at this
      simpa [hj, hh] using this
    · rw [if_neg hj]
      exact h.threadHolds j
  · rw [hn]
    exact h.count
  · exact h.room
  · rw [hn]
    exact h.finished

/-- A thread takes the free lock. -/
theorem Inv.lock_thread (h : Inv limit s) {i : ℕ} (hi : s.threads[i]? = some .locking)
    (hl : s.lock = none) :
    Inv limit { s with lock := some (.thread i), threads := s.threads.set i .counting } := by
  have hn : liveThreads { s with lock := some (.thread i), threads := s.threads.set i .counting } =
      liveThreads s := countP_move_same hi rfl
  constructor
  · have := h.mainHolds
    rw [hl] at this
    simpa using this
  · intro j
    rw [get_move hi]
    by_cases hj : j = i
    · simp [hj, ThreadPc.holds]
    · have := h.threadHolds j
      rw [hl] at this
      simpa [hj, Ne.symm hj] using this
  · rw [hn]
    exact h.count
  · exact h.room
  · rw [hn]
    exact h.finished

/-- A thread gives the lock back. -/
theorem Inv.unlock_thread (h : Inv limit s) {i : ℕ} (hi : s.threads[i]? = some .unlocking) :
    Inv limit { s with lock := none, threads := s.threads.set i .gone } := by
  have hn : liveThreads { s with lock := none, threads := s.threads.set i .gone } =
      liveThreads s := countP_move_same hi rfl
  have hlock := (h.threadHolds i).mpr (by rw [hi]; rfl)
  constructor
  · have := h.main_not_holds hi rfl
    simp [this]
  · intro j
    rw [get_move hi]
    by_cases hj : j = i
    · simp [hj, ThreadPc.holds]
    · have := h.threadHolds j
      rw [hlock] at this
      simpa [hj, Ne.symm hj] using this
  · rw [hn]
    exact h.count
  · exact h.room
  · rw [hn]
    exact h.finished

/-- A thread takes itself off the count, and is live no more. -/
theorem Inv.count_thread (h : Inv limit s) {i : ℕ} (hi : s.threads[i]? = some .counting) :
    Inv limit { s with
      threadCount := wrap32 (s.threadCount - 1), threads := s.threads.set i .unlocking } := by
  have hno := h.main_not_holds hi rfl
  have hu := uncounted_of_not_holds hno
  have hl := claimed_of_not_holds hno
  have hc := h.count
  have hr := h.room
  have hint := limit.int
  have hpos : 0 < liveThreads s := countP_pos_of_get hi rfl
  have hn : (s.threads.set i .unlocking).countP ThreadPc.live + 1 = liveThreads s := by
    simpa [ThreadPc.live, liveThreads] using countP_move hi ThreadPc.live .unlocking
  rw [hu] at hc
  rw [hl] at hr
  simp only [INT_MAX] at hint
  have hw : wrap32 (s.threadCount - 1) = s.threadCount - 1 := wrap32_eq (by omega) (by omega)
  rw [hw]
  constructor
  · exact h.mainHolds
  · intro j
    rw [get_move hi]
    by_cases hj : j = i
    · have := h.threadHolds i
      rw [hi] at this
      simpa [hj, ThreadPc.holds] using this
    · rw [if_neg hj]
      exact h.threadHolds j
  · simp only [liveThreads, hu]
    omega
  · simp only [hl]
    omega
  · intro hf
    have := h.finished hf
    omega

theorem threadStep_inv (h : Inv limit s) (i : ℕ) (leave : Bool) :
    Inv limit (threadStep s i leave) := by
  cases hi : s.threads[i]? with
  | none => simpa only [threadStep, hi] using h
  | some pc =>
    cases pc with
    | serving =>
      simp only [threadStep, hi]
      split_ifs
      · exact h.move_thread hi rfl rfl
      · exact h
    | locking =>
      simp only [threadStep, hi]
      split_ifs with hl
      · exact h.lock_thread hi hl
      · exact h
    | counting =>
      simp only [threadStep, hi]
      exact h.count_thread hi
    | unlocking =>
      simp only [threadStep, hi]
      exact h.unlock_thread hi
    | gone => simpa only [threadStep, hi] using h

theorem step_inv (h : Inv limit s) (a : Action) : Inv limit (step limit s a) := by
  cases a with
  | main f => exact mainStep_inv h f
  | thread i leave => exact threadStep_inv h i leave
  | stop => exact ⟨h.mainHolds, h.threadHolds, h.count, h.room, h.finished⟩

end Steps

section Runs

theorem run_inv (limit : Limit) (as : List Action) : Inv limit (run (step limit) initial as) :=
  run_invariant (inv_initial limit) (fun _ a h => step_inv h a) as

/-- Outside the critical sections the count is the number of threads that have not taken
themselves off it, and within the limit; and once `main` goes on to destroy the log and to
close the statistics no thread can write to them any more. -/
theorem connections_accounted (limit : Limit) (as : List Action) :
    ((run (step limit) initial as).lock = none →
      0 ≤ (run (step limit) initial as).threadCount ∧
      (run (step limit) initial as).threadCount ≤ limit.maxConnections ∧
      (run (step limit) initial as).threadCount = liveThreads (run (step limit) initial as)) ∧
    ((run (step limit) initial as).main.finishing = true →
      ∀ pc ∈ (run (step limit) initial as).threads, pc.canWrite = false) := by
  have h := run_inv limit as
  generalize run (step limit) initial as = s at h
  constructor
  · intro hl
    have hno : s.main.holds = false := by
      have := h.mainHolds
      rw [hl] at this
      simpa using this
    have hc := h.count
    have hr := h.room
    rw [uncounted_of_not_holds hno] at hc
    rw [claimed_of_not_holds hno] at hr
    exact ⟨by omega, by omega, by omega⟩
  · intro hf pc hpc
    have hlive := not_of_countP_eq_zero (h.finished hf) hpc
    cases pc <;> first | rfl | cases hlive

end Runs

end DemoStorage.ConnectionAccounting
