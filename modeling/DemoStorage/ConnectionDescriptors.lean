import DemoStorage.BinlogWriting
import DemoStorage.ConnectionAccounting

/-!
# Descriptors of connections

`nbaccept` opens a descriptor for each connection. `main` closes it again when the limit is
reached or no thread can be created; otherwise the thread that serves it closes it, behind the
critical section in which it takes itself off the count. The system may give a number out again
as soon as it is closed.
-/

namespace DemoStorage.ConnectionDescriptors
open ByteStrings ConditionedRuns ThreadPools PosixFileTree BinlogWriting ConnectionAccounting

abbrev Fd := ℕ

def EINTR : Errno := 4
def ETIMEDOUT : Errno := 110

section Tables
variable {τ : Type}

/-- What is open has exactly one owner. -/
structure Owned (opened owners : List τ) : Prop where
  perm : opened.Perm owners
  nodup : opened.Nodup

theorem Owned.move {opened owners owners' : List τ} (h : Owned opened owners)
    (hp : owners.Perm owners') : Owned opened owners' := ⟨h.perm.trans hp, h.nodup⟩

theorem Owned.take {opened owners : List τ} (h : Owned opened owners) {a : τ} (ha : a ∉ opened) :
    Owned (a :: opened) (a :: owners) := ⟨h.perm.cons a, h.nodup.cons ha⟩

theorem Owned.giveBack [DecidableEq τ] {opened owners : List τ} {a : τ}
    (h : Owned opened (a :: owners)) : a ∈ opened ∧ Owned (opened.erase a) owners := by
  have hmem : a ∈ opened := h.perm.mem_iff.mpr List.mem_cons_self
  exact ⟨hmem, ((List.perm_cons_erase hmem).symm.trans h.perm).cons_inv, h.nodup.erase a⟩

/-- The slot of an owner that gives back what it has. -/
theorem perm_set_none {slots : List (Option τ)} {i : ℕ} {a : τ} (h : slots[i]? = some (some a)) :
    (slots.filterMap id).Perm (a :: (slots.set i none).filterMap id) := by
  induction slots generalizing i with
  | nil => cases h
  | cons o slots ih =>
    cases i with
    | zero =>
      obtain rfl : o = some a := Option.some.inj h
      exact .refl _
    | succ i =>
      have hrest := ih (i := i) h
      cases o with
      | none => exact hrest
      | some b => exact (hrest.cons b).trans (.swap a b _)

/-- The filled slots, when everyone with the property has filled theirs. -/
theorem length_filled {α : Type} {p : α → Bool} {ts : List α} {slots : List (Option τ)}
    (hlen : slots.length = ts.length)
    (h : ∀ x ∈ ts.zip slots, p x.1 = true → x.2.isSome = true) :
    (slots.filterMap id).length =
      ts.countP p + (ts.zip slots).countP fun x => !p x.1 && x.2.isSome := by
  induction ts generalizing slots with
  | nil =>
    obtain rfl := List.length_eq_zero_iff.mp hlen
    rfl
  | cons a ts ih =>
    cases slots with
    | nil => cases hlen
    | cons o slots =>
      have hrest := ih (Nat.succ.inj hlen) fun x hx => h x (List.mem_cons_of_mem _ hx)
      have hhead := h (a, o) List.mem_cons_self
      rw [List.zip_cons_cons, List.countP_cons, List.countP_cons]
      cases o with
      | none =>
        have hp : p a = false := by
          by_contra hp
          cases hhead (by simpa using hp)
        simpa [hp] using hrest
      | some b =>
        have hcons : (some b :: slots).filterMap id = b :: slots.filterMap id := rfl
        rw [hcons, List.length_cons, hrest]
        cases p a <;> simp <;> omega

end Tables

/-- What `select` and `accept` find. -/
inductive Waited where
  | timeout
  | failed (e : Errno)
  | exceptional
  | readable (r : Except Errno Fd)

def nbaccept : Waited → Except Errno Fd
  | .timeout => .error ETIMEDOUT
  | .failed e => .error e
  | .exceptional => .error EAGAIN
  | .readable r => r

/-- How `main` goes on behind `nbaccept`. -/
def accepted : Except Errno Fd → Accepted
  | .ok _ => .connection
  | .error e =>
    if e = ETIMEDOUT ∨ e = EINTR ∨ e = EAGAIN then .retry
    else if e = EBADF then .badDescriptor
    else .retry

/-- The accounts of the connections, and their descriptors: that of `main`, those of the threads
until they are closed, and all that are open. The last field tells of a close of a descriptor
that was not open. -/
structure State where
  accounts : ConnectionAccounting.State
  comesock : Option Fd
  socks : List (Option Fd)
  opened : List Fd
  badClose : Bool

def initial : State := ⟨ConnectionAccounting.initial, none, [], [], false⟩

inductive Action where
  | main (waited : Waited) (f : Findings)
  | thread (i : ℕ) (leave : Bool)
  | stop

def State.close (s : State) (fd : Fd) : State :=
  if fd ∈ s.opened then { s with opened := s.opened.erase fd } else { s with badClose := true }

@[simp] theorem close_accounts (s : State) (fd : Fd) : (s.close fd).accounts = s.accounts := by
  unfold State.close
  split_ifs <;> rfl

@[simp] theorem close_socks (s : State) (fd : Fd) : (s.close fd).socks = s.socks := by
  unfold State.close
  split_ifs <;> rfl

/-- `main` closes the connection it has. -/
def State.closeComesock (s : State) : State :=
  match s.comesock with
  | none => { s with badClose := true }
  | some fd => { s with comesock := none }.close fd

@[simp] theorem closeComesock_accounts (s : State) : s.closeComesock.accounts = s.accounts := by
  unfold State.closeComesock
  split <;> simp

def mainStep (limit : Limit) (s : State) (waited : Waited) (f : Findings) : State :=
  let found := { f with accepted := accepted (nbaccept waited) }
  let next := { s with accounts := ConnectionAccounting.mainStep limit s.accounts found }
  match s.accounts.main with
  | .accepting =>
    if s.accounts.continueFlag = false then next
    else match nbaccept waited with
      | .error _ => next
      -- a number that is in use is not given out
      | .ok fd => if fd ∈ s.opened then s
        else { next with comesock := some fd, opened := fd :: s.opened }
  | .testing =>
    if limit.maxConnections ≤ s.accounts.threadCount then next.closeComesock else next
  | .creating =>
    if f.createFails then next.closeComesock
    else { next with comesock := none, socks := s.socks ++ [s.comesock] }
  | _ => next

/-- A thread that has given the lock back closes its socket and is done. -/
def threadStep (s : State) (i : ℕ) (leave : Bool) : State :=
  match s.accounts.threads[i]?, s.socks[i]? with
  | some .gone, some (some fd) => { s with socks := s.socks.set i none }.close fd
  | _, _ => { s with accounts := ConnectionAccounting.threadStep s.accounts i leave }

def step (limit : Limit) (s : State) : Action → State
  | .main waited f => mainStep limit s waited f
  | .thread i leave => threadStep s i leave
  | .stop => { s with accounts := ConnectionAccounting.step limit s.accounts .stop }

/-- The descriptors that somebody has still to close. -/
def State.owned (s : State) : List Fd := s.comesock.toList ++ s.socks.filterMap id

/-- Threads that are off the count and have not closed their sockets yet. -/
def leaving (s : State) : ℕ :=
  (s.accounts.threads.zip s.socks).countP fun x => !x.1.live && x.2.isSome

/-- `main` has a connection between its `accept` and the creation of a thread. -/
def MainPc.inHand : MainPc → Bool
  | .locking => true
  | .testing => true
  | .creating => true
  | _ => false

structure Sound (limit : Limit) (s : State) : Prop where
  accounts : ConnectionAccounting.Inv limit s.accounts
  owned : Owned s.opened s.owned
  sound : s.badClose = false
  inHand : s.comesock.isSome = MainPc.inHand s.accounts.main
  length : s.socks.length = s.accounts.threads.length
  serving : ∀ (i : ℕ) (pc : ThreadPc), s.accounts.threads[i]? = some pc → pc ≠ .gone →
    ∃ fd, s.socks[i]? = some (some fd)

theorem sound_initial (limit : Limit) : Sound limit initial where
  accounts := ConnectionAccounting.inv_initial limit
  owned := ⟨.refl _, List.nodup_nil⟩
  sound := rfl
  inHand := rfl
  length := rfl
  serving i pc hi := by cases hi

section Steps
variable {limit : Limit} {s : State}

/-- A step that the descriptors do not know of. -/
theorem Sound.move (h : Sound limit s) {accounts : ConnectionAccounting.State}
    (ha : ConnectionAccounting.Inv limit accounts)
    (hm : MainPc.inHand accounts.main = MainPc.inHand s.accounts.main)
    (ht : accounts.threads = s.accounts.threads) : Sound limit { s with accounts := accounts } where
  accounts := ha
  owned := h.owned
  sound := h.sound
  inHand := h.inHand.trans hm.symm
  length := by rw [ht, h.length]
  serving := by rw [ht]; exact h.serving

/-- The owner of a descriptor closes it. -/
theorem close_owned {v : State} {fd : Fd} {owners : List Fd} (h : Owned v.opened (fd :: owners)) :
    v.close fd = { v with opened := v.opened.erase fd } ∧ Owned (v.opened.erase fd) owners := by
  obtain ⟨hmem, howned⟩ := h.giveBack
  exact ⟨if_pos hmem, howned⟩

/-- `main` gets a connection. -/
theorem Sound.accept (h : Sound limit s) {accounts : ConnectionAccounting.State}
    (ha : ConnectionAccounting.Inv limit accounts) (hm : MainPc.inHand s.accounts.main = false)
    (hm' : MainPc.inHand accounts.main = true) (ht : accounts.threads = s.accounts.threads) {fd : Fd}
    (hfd : fd ∉ s.opened) :
    Sound limit { s with accounts := accounts, comesock := some fd, opened := fd :: s.opened } := by
  have hnone := h.inHand
  rw [hm, Option.isSome_eq_false_iff, Option.isNone_iff_eq_none] at hnone
  have howned := h.owned.take hfd
  rw [State.owned, hnone] at howned
  exact ⟨ha, howned, h.sound, hm'.symm, by rw [h.length, ht], by rw [ht]; exact h.serving⟩

/-- `main` closes a connection for which there is no thread. -/
theorem Sound.refuse (h : Sound limit s) {accounts : ConnectionAccounting.State}
    (ha : ConnectionAccounting.Inv limit accounts) (hm : MainPc.inHand s.accounts.main = true)
    (hm' : MainPc.inHand accounts.main = false) (ht : accounts.threads = s.accounts.threads) :
    Sound limit (State.closeComesock { s with accounts := accounts }) := by
  have hsome := h.inHand
  rw [hm] at hsome
  obtain ⟨fd, hfd⟩ := Option.isSome_iff_exists.mp hsome
  have howned := h.owned
  rw [State.owned, hfd] at howned
  obtain ⟨hclose, hrest⟩ := close_owned (v := { s with accounts := accounts, comesock := none }) howned
  simp only [State.closeComesock, hfd]
  rw [hclose]
  exact ⟨ha, hrest, h.sound, hm'.symm, by rw [h.length, ht], by rw [ht]; exact h.serving⟩

/-- `main` hands a connection to a new thread. -/
theorem Sound.create (h : Sound limit s) {accounts : ConnectionAccounting.State}
    (ha : ConnectionAccounting.Inv limit accounts) (hm : MainPc.inHand s.accounts.main = true)
    (hm' : MainPc.inHand accounts.main = false)
    (ht : accounts.threads = s.accounts.threads ++ [.serving]) :
    Sound limit { s with
      accounts := accounts, comesock := none, socks := s.socks ++ [s.comesock] } := by
  have hsome := h.inHand
  rw [hm] at hsome
  obtain ⟨fd, hfd⟩ := Option.isSome_iff_exists.mp hsome
  have howned := h.owned
  rw [State.owned, hfd] at howned
  constructor
  · exact ha
  · rw [hfd]
    refine howned.move ?_
    simpa [State.owned] using (List.perm_append_singleton fd (s.socks.filterMap id)).symm
  · exact h.sound
  · exact hm'.symm
  · rw [ht, List.length_append, List.length_append, h.length]
    rfl
  · intro i pc hi hpc
    rw [ht, get_create] at hi
    rw [get_create, h.length]
    by_cases hi' : i = s.accounts.threads.length
    · exact ⟨fd, by rw [if_pos hi', hfd]⟩
    · rw [if_neg hi'] at hi ⊢
      exact h.serving i pc hi hpc

omit limit s in
theorem gone_stays {s : ConnectionAccounting.State} {j : ℕ} (i : ℕ) (leave : Bool)
    (hj : s.threads[j]? = some .gone) :
    (ConnectionAccounting.threadStep s i leave).threads[j]? = some .gone := by
  have hmoved (a b : ThreadPc) (hi : s.threads[i]? = some a) (ha : a ≠ .gone) :
      (s.threads.set i b)[j]? = some .gone := by
    rw [List.getElem?_set_ne, hj]
    rintro rfl
    exact ha (Option.some.inj (hi.symm.trans hj))
  unfold ConnectionAccounting.threadStep
  split
  · next hi =>
    split_ifs
    · exact hmoved _ _ hi nofun
    · exact hj
  · next hi =>
    split_ifs
    · exact hmoved _ _ hi nofun
    · exact hj
  · next hi => exact hmoved _ _ hi nofun
  · next hi => exact hmoved _ _ hi nofun
  · exact hj
  · exact hj

/-- A step of a thread before it closes its socket. -/
theorem Sound.thread (h : Sound limit s) (i : ℕ) (leave : Bool)
    (ha : ConnectionAccounting.Inv limit (ConnectionAccounting.threadStep s.accounts i leave)) :
    Sound limit { s with accounts := ConnectionAccounting.threadStep s.accounts i leave } := by
  have hmain : (ConnectionAccounting.threadStep s.accounts i leave).main = s.accounts.main := by
    unfold ConnectionAccounting.threadStep
    split <;> (try split_ifs) <;> rfl
  have hlen : (ConnectionAccounting.threadStep s.accounts i leave).threads.length =
      s.accounts.threads.length := by
    unfold ConnectionAccounting.threadStep
    split <;> (try split_ifs) <;> simp
  refine ⟨ha, h.owned, h.sound, by rw [hmain, h.inHand], by rw [hlen, h.length], ?_⟩
  intro j pc hj hpc
  have hbound : j < s.accounts.threads.length := by
    rw [← hlen]
    exact (List.getElem?_eq_some_iff.mp hj).1
  refine h.serving j _ (List.getElem?_eq_getElem hbound) fun hgone => hpc ?_
  have hstays := gone_stays i leave ((List.getElem?_eq_getElem hbound).trans (congrArg some hgone))
  exact Option.some.inj (hj.symm.trans hstays)

/-- Behind a failed call `main` tries again or leaves the loop. -/
theorem accepted_error (e : Errno) :
    accepted (.error e) = .retry ∨ accepted (.error e) = .badDescriptor := by
  unfold accepted
  dsimp only
  split_ifs
  · exact .inl rfl
  · exact .inr rfl
  · exact .inl rfl

theorem mainStep_sound (h : Sound limit s) (waited : Waited) (f : Findings) :
    Sound limit (mainStep limit s waited f) := by
  have ha := ConnectionAccounting.mainStep_inv h.accounts
    { f with accepted := accepted (nbaccept waited) }
  cases hm : s.accounts.main with
  | accepting =>
    simp only [mainStep, ConnectionAccounting.mainStep, hm] at ha ⊢
    generalize nbaccept waited = r at ha ⊢
    split_ifs at ha ⊢
    · exact h.move ha (by rw [hm]; rfl) rfl
    · cases r with
      | ok fd =>
        dsimp only
        split_ifs with hfd
        · exact h
        · exact h.accept ha (by rw [hm]; rfl) rfl rfl hfd
      | error e =>
        dsimp only at ha ⊢
        rcases accepted_error e with he | he
        · rw [he] at ha ⊢
          exact h
        · rw [he] at ha ⊢
          exact h.move ha (by rw [hm]; rfl) rfl
  | testing =>
    simp only [mainStep, ConnectionAccounting.mainStep, hm] at ha ⊢
    split_ifs at ha ⊢
    · exact h.refuse ha (by rw [hm]; rfl) rfl rfl
    · exact h.move ha (by rw [hm]; rfl) rfl
  | creating =>
    simp only [mainStep, ConnectionAccounting.mainStep, hm] at ha ⊢
    split_ifs at ha ⊢
    · exact h.refuse ha (by rw [hm]; rfl) rfl rfl
    · exact h.create ha (by rw [hm]; rfl) rfl rfl
  | locking =>
    simp only [mainStep, ConnectionAccounting.mainStep, hm] at ha ⊢
    split_ifs at ha ⊢
    · exact h.move ha (by rw [hm]; rfl) rfl
    · exact h
  | waiting =>
    simp only [mainStep, ConnectionAccounting.mainStep, hm] at ha ⊢
    split_ifs at ha ⊢
    · exact h
    · exact h.move ha (by rw [hm]; rfl) rfl
  | counting | unlocking | destroying | closing | exited =>
    simp only [mainStep, ConnectionAccounting.mainStep, hm] at ha ⊢
    exact h.move ha (by simp only [hm, MainPc.inHand]) rfl

theorem threadStep_sound (h : Sound limit s) (i : ℕ) (leave : Bool) :
    Sound limit (threadStep s i leave) := by
  have ha := ConnectionAccounting.threadStep_inv h.accounts i leave
  unfold threadStep
  split
  · next fd hi hfd =>
    -- a thread that is done closes its socket
    have howned := h.owned
    have hp := (perm_set_none hfd).append_left s.comesock.toList
    obtain ⟨hclose, hrest⟩ := close_owned (v := { s with socks := s.socks.set i none })
      (howned.move (hp.trans List.perm_middle))
    rw [hclose]
    refine ⟨h.accounts, hrest, h.sound, h.inHand, by simpa using h.length, ?_⟩
    intro j pc hj hpc
    obtain ⟨fd', hj'⟩ := h.serving j pc hj hpc
    have hne : i ≠ j := by
      rintro rfl
      rw [hi] at hj
      exact hpc (Option.some.inj hj).symm
    exact ⟨fd', by rwa [List.getElem?_set_ne hne]⟩
  · exact h.thread i leave ha

theorem step_sound (h : Sound limit s) (a : Action) : Sound limit (step limit s a) := by
  cases a with
  | main waited f => exact mainStep_sound h waited f
  | thread i leave => exact threadStep_sound h i leave
  | stop => exact h.move (ConnectionAccounting.step_inv h.accounts .stop) rfl rfl

end Steps

section Runs

theorem run_sound (limit : Limit) (as : List Action) : Sound limit (run (step limit) initial as) :=
  run_invariant (sound_initial limit) (fun _ a h => step_sound h a) as

/-- In every state of every run each descriptor that is open has one owner, who has still to close
it: `main` between its `accept` and the creation of a thread, or a thread. Nothing but an open
descriptor of one's own is ever closed, and a thread has its descriptor to its end. -/
theorem descriptors_owned (limit : Limit) (as : List Action) :
    let s := run (step limit) initial as
    s.opened.Perm s.owned ∧ s.owned.Nodup ∧ s.badClose = false ∧
      ∀ (i : ℕ) (pc : ThreadPc), s.accounts.threads[i]? = some pc → pc ≠ .gone →
        ∃ fd ∈ s.opened, s.socks[i]? = some (some fd) := by
  have h := run_sound limit as
  generalize run (step limit) initial as = s at h
  refine ⟨h.owned.perm, h.owned.perm.nodup_iff.mp h.owned.nodup, h.sound, fun i pc hi hpc => ?_⟩
  obtain ⟨fd, hfd⟩ := h.serving i pc hi hpc
  refine ⟨fd, h.owned.perm.mem_iff.mpr (List.mem_append_right _ ?_), hfd⟩
  exact List.mem_filterMap.mpr ⟨some fd, List.mem_of_getElem? hfd, rfl⟩

/-- Descriptors are open for the threads that count, for at most one connection `main` has in
hand and for the threads that are off the count and have not closed theirs; the limit holds for the
first only, and nothing bounds the last. When `main` goes on to its end, those that are open are of
threads that leave. -/
theorem descriptors_counted (limit : Limit) (as : List Action) :
    let s := run (step limit) initial as
    s.opened.length = liveThreads s.accounts + s.comesock.toList.length + leaving s ∧
      (liveThreads s.accounts : ℤ) ≤ limit.maxConnections ∧
      (s.accounts.main.finishing = true → s.opened.length = leaving s) := by
  have h := run_sound limit as
  generalize run (step limit) initial as = s at h
  have hcount := h.accounts.count
  have hroom := h.accounts.room
  have hclaimed : s.accounts.main.uncounted ≤ s.accounts.main.claimed := by
    cases s.accounts.main <;> decide
  have hfilled := length_filled (p := ThreadPc.live) h.length fun x hx hlive => by
    obtain ⟨i, hi⟩ := List.mem_iff_getElem?.mp hx
    obtain ⟨hpc, hsock⟩ := List.getElem?_zip_eq_some.mp hi
    obtain ⟨fd, hfd⟩ := h.serving i x.1 hpc (by
      intro hgone
      rw [hgone] at hlive
      cases hlive)
    rw [Option.some.inj (hsock.symm.trans hfd)]
    rfl
  have hlen : s.opened.length = liveThreads s.accounts + s.comesock.toList.length + leaving s := by
    rw [h.owned.perm.length_eq, State.owned, List.length_append, hfilled, leaving, liveThreads]
    omega
  refine ⟨hlen, by omega, fun hfinishing => ?_⟩
  have hnone : s.comesock = none := by
    have hhand : MainPc.inHand s.accounts.main = false := by
      revert hfinishing
      cases s.accounts.main <;> decide
    rw [← h.inHand, Option.isSome_eq_false_iff, Option.isNone_iff_eq_none] at hhand
    exact hhand
  rw [hlen, h.accounts.finished hfinishing, hnone]
  simp

end Runs

section Leaving
variable {limit : Limit} {s : State} {n : ℕ}

/-- A client whose thread takes itself off the count and gets no further. -/
def leavingClient (fd i : ℕ) : List Action :=
  .main (.readable (.ok fd)) {} :: (List.replicate 5 (.main .timeout {}) ++
    [.thread i true, .thread i false, .thread i false, .thread i false])

/-- `main` accepts, and some threads have not closed their sockets. -/
structure Idle (n : ℕ) (s : State) : Prop where
  accounts : s.accounts = ⟨0, true, none, .accepting, List.replicate n .gone⟩
  comesock : s.comesock = none
  length : s.socks.length = n
  filled : ∀ o ∈ s.socks, o.isSome = true

theorem Idle.leaving_eq (h : Idle n s) : leaving s = n := by
  have hall : ∀ x ∈ s.accounts.threads.zip s.socks, (!x.1.live && x.2.isSome) = true := by
    intro x hx
    obtain ⟨hpc, hsock⟩ := List.of_mem_zip (a := x.1) (b := x.2) hx
    rw [h.accounts] at hpc
    rw [List.eq_of_mem_replicate hpc, h.filled _ hsock]
    rfl
  rw [leaving, List.countP_eq_length.mpr hall, List.length_zip, h.accounts, h.length]
  simp

theorem Idle.client (h : Idle n s) {fd : Fd} (hfd : fd ∉ s.opened) :
    Idle (n + 1) (run (step limit) s (leavingClient fd n)) := by
  obtain ⟨accounts, comesock, socks, opened, badClose⟩ := s
  obtain ⟨rfl, rfl, hlen, hfilled⟩ := h
  have hroom : ¬ limit.maxConnections ≤ 0 := not_le.mpr limit.pos
  have hcreated : run (step limit) ⟨⟨0, true, none, .accepting, List.replicate n .gone⟩, none, socks,
      opened, badClose⟩ (.main (.readable (.ok fd)) {} :: List.replicate 5 (.main .timeout {})) =
      ⟨⟨1, true, none, .accepting, List.replicate n .gone ++ [.serving]⟩, none, socks ++ [some fd],
        fd :: opened, badClose⟩ := by
    have hfd' : fd ∉ opened := hfd
    simp [List.replicate, run, step, mainStep, nbaccept, hfd', ConnectionAccounting.mainStep,
      accepted, hroom, wrap32]
  have hleft : run (step limit) ⟨⟨1, true, none, .accepting, List.replicate n .gone ++ [.serving]⟩,
      none, socks ++ [some fd], fd :: opened, badClose⟩
      [.thread n true, .thread n false, .thread n false, .thread n false] =
      ⟨⟨0, true, none, .accepting, List.replicate (n + 1) .gone⟩, none, socks ++ [some fd],
        fd :: opened, badClose⟩ := by
    simp [run, step, threadStep, ConnectionAccounting.threadStep, wrap32, List.replicate_succ']
  rw [leavingClient, ← List.cons_append, run_append, hcreated, hleft]
  refine ⟨rfl, rfl, by simpa using hlen, fun o ho => ?_⟩
  rcases List.mem_append.mp ho with ho | ho
  · exact hfilled o ho
  · rw [List.mem_singleton.mp ho]
    rfl

/-- The limit does not bound the threads that leave: for every number there is a run with so many. -/
theorem leaving_unbounded (limit : Limit) (n : ℕ) :
    ∃ as, leaving (run (step limit) initial as) = n := by
  suffices h : ∃ as, Idle n (run (step limit) initial as) by
    obtain ⟨as, h⟩ := h
    exact ⟨as, h.leaving_eq⟩
  induction n with
  | zero => exact ⟨[], rfl, rfl, rfl, by simp [run, initial]⟩
  | succ n ih =>
    obtain ⟨as, h⟩ := ih
    obtain ⟨fd, hfd⟩ := Infinite.exists_notMem_finset (run (step limit) initial as).opened.toFinset
    refine ⟨as ++ leavingClient fd n, ?_⟩
    rw [run_append]
    exact h.client (by simpa using hfd)

end Leaving

section Shutdown
variable {limit : Limit} {s : State}

/-- Steps that are left to `main` once the flag is cleared; the creation of a thread makes room
for the steps of that thread. -/
def MainPc.remaining : MainPc → ℕ
  | .locking => 13
  | .testing => 12
  | .creating => 11
  | .counting => 6
  | .unlocking => 5
  | .accepting => 4
  | .waiting => 3
  | .destroying => 2
  | .closing => 1
  | .exited => 0

def ThreadPc.remaining : ThreadPc → ℕ
  | .serving => 4
  | .locking => 3
  | .counting => 2
  | .unlocking => 1
  | .gone => 0

/-- A bound on the steps that are left, a close being one. -/
def remaining (s : State) : ℕ :=
  MainPc.remaining s.accounts.main + total ThreadPc.remaining s.accounts.threads + s.opened.length

/-- `main` is at its end and no connection is open. -/
def Ended (s : State) : Prop := s.accounts.main = .exited ∧ s.opened = []

theorem length_close_le (s : State) (fd : Fd) : (s.close fd).opened.length ≤ s.opened.length := by
  unfold State.close
  split_ifs
  · exact List.length_erase_le
  · exact le_refl _

theorem closeComesock_remaining (s : State) : remaining s.closeComesock ≤ remaining s := by
  unfold State.closeComesock
  cases s.comesock with
  | none => exact le_refl _
  | some fd =>
    have hle := length_close_le { s with comesock := none } fd
    simp only [remaining, close_accounts] at hle ⊢
    omega

theorem mainStep_remaining (hstop : s.accounts.continueFlag = false) (waited : Waited) (f : Findings) :
    mainStep limit s waited f = s ∨ remaining (mainStep limit s waited f) < remaining s := by
  cases hm : s.accounts.main with
  | accepting =>
    right
    simp only [mainStep, ConnectionAccounting.mainStep, hm, hstop, if_true, remaining, MainPc.remaining]
    omega
  | testing =>
    right
    simp only [mainStep, ConnectionAccounting.mainStep, hm]
    split_ifs
    · refine (closeComesock_remaining _).trans_lt ?_
      simp only [remaining, hm, MainPc.remaining]
      omega
    · simp only [remaining, hm, MainPc.remaining]
      omega
  | creating =>
    right
    simp only [mainStep, ConnectionAccounting.mainStep, hm]
    split_ifs
    · refine (closeComesock_remaining _).trans_lt ?_
      simp only [remaining, hm, MainPc.remaining]
      omega
    · simp only [remaining, hm, MainPc.remaining, total_create, ThreadPc.remaining]
      omega
  | locking =>
    simp only [mainStep, ConnectionAccounting.mainStep, hm]
    split_ifs
    · right
      simp only [remaining, hm, MainPc.remaining]
      omega
    · exact .inl rfl
  | waiting =>
    simp only [mainStep, ConnectionAccounting.mainStep, hm]
    split_ifs
    · exact .inl rfl
    · right
      simp only [remaining, hm, MainPc.remaining]
      omega
  | counting | unlocking | destroying | closing =>
    right
    simp only [mainStep, ConnectionAccounting.mainStep, hm, remaining, MainPc.remaining]
    omega
  | exited =>
    left
    simp only [mainStep, ConnectionAccounting.mainStep, hm]

theorem threadStep_remaining (h : Sound limit s) (i : ℕ) (leave : Bool) :
    threadStep s i leave = s ∨ remaining (threadStep s i leave) < remaining s := by
  unfold threadStep
  split
  · next fd hi hfd =>
    -- the close of a socket that is open
    have hp := (perm_set_none hfd).append_left s.comesock.toList
    obtain ⟨hmem, -⟩ := (h.owned.move (hp.trans List.perm_middle)).giveBack
    have hpos := List.length_pos_of_mem hmem
    right
    simp only [State.close, hmem, if_true, remaining, List.length_erase_of_mem]
    omega
  · unfold ConnectionAccounting.threadStep
    cases hi : s.accounts.threads[i]? with
    | none => exact .inl rfl
    | some pc =>
      have hmove := total_move hi ThreadPc.remaining
      cases pc with
      | serving =>
        dsimp only
        split_ifs
        · right
          have hless := hmove .locking
          simp only [ThreadPc.remaining] at hless
          simp only [remaining]
          omega
        · exact .inl rfl
      | locking =>
        dsimp only
        split_ifs
        · right
          have hless := hmove .counting
          simp only [ThreadPc.remaining] at hless
          simp only [remaining]
          omega
        · exact .inl rfl
      | counting =>
        right
        have hless := hmove .unlocking
        simp only [ThreadPc.remaining] at hless
        simp only [remaining]
        omega
      | unlocking =>
        right
        have hless := hmove .gone
        simp only [ThreadPc.remaining] at hless
        simp only [remaining]
        omega
      | gone => exact .inl rfl

theorem step_remaining (h : Sound limit s) (hstop : s.accounts.continueFlag = false) (a : Action) :
    step limit s a = s ∨ remaining (step limit s a) < remaining s := by
  cases a with
  | main waited f => exact mainStep_remaining hstop waited f
  | thread i leave => exact threadStep_remaining h i leave
  | stop =>
    left
    have hsame : ConnectionAccounting.step limit s.accounts .stop = s.accounts := by
      simp only [ConnectionAccounting.step, ← hstop]
    simp only [step, hsame]

/-- A thread moves that is not kept waiting for the lock. -/
theorem thread_moves (h : Sound limit s) {i : ℕ} {pc : ThreadPc}
    (hi : s.accounts.threads[i]? = some pc) (hlock : pc = .locking → s.accounts.lock = none)
    (hopen : pc = .gone → ∃ fd, s.socks[i]? = some (some fd)) :
    remaining (threadStep s i true) < remaining s := by
  refine (threadStep_remaining h i true).resolve_left fun hsame => ?_
  have hthreads := congrArg (fun v => v.accounts.threads[i]?) hsame
  have hset (b : ThreadPc) := get_move hi (b := b) i
  cases pc with
  | serving => simp [threadStep, hi, ConnectionAccounting.threadStep, hset] at hthreads
  | locking => simp [threadStep, hi, ConnectionAccounting.threadStep, hset, hlock rfl] at hthreads
  | counting => simp [threadStep, hi, ConnectionAccounting.threadStep, hset] at hthreads
  | unlocking => simp [threadStep, hi, ConnectionAccounting.threadStep, hset] at hthreads
  | gone =>
    obtain ⟨fd, hfd⟩ := hopen rfl
    have hsocks := congrArg (fun v => v.socks[i]?) hsame
    have hnone := get_move hfd (b := none) i
    simp [threadStep, hi, hfd, hnone] at hsocks

/-- `main` moves when it is kept waiting neither for the lock nor for threads that count. -/
theorem main_moves (hstop : s.accounts.continueFlag = false)
    (hlock : s.accounts.main = .locking → s.accounts.lock = none)
    (hwait : s.accounts.main = .waiting → s.accounts.threadCount = 0)
    (hend : s.accounts.main ≠ .exited) :
    remaining (mainStep limit s .timeout {}) < remaining s := by
  refine (mainStep_remaining hstop .timeout {}).resolve_left fun hsame => ?_
  have hmain := congrArg (fun v => v.accounts.main) hsame
  cases hm : s.accounts.main with
  | accepting => simp [mainStep, ConnectionAccounting.mainStep, hm, hstop] at hmain
  | locking => simp [mainStep, ConnectionAccounting.mainStep, hm, hlock hm] at hmain
  | testing =>
    simp only [mainStep, ConnectionAccounting.mainStep, hm] at hmain
    split_ifs at hmain; simp at hmain
  | creating => simp [mainStep, ConnectionAccounting.mainStep, hm] at hmain
  | counting => simp [mainStep, ConnectionAccounting.mainStep, hm] at hmain
  | unlocking => simp [mainStep, ConnectionAccounting.mainStep, hm] at hmain
  | waiting => simp [mainStep, ConnectionAccounting.mainStep, hm, hwait hm] at hmain
  | destroying => simp [mainStep, ConnectionAccounting.mainStep, hm] at hmain
  | closing => simp [mainStep, ConnectionAccounting.mainStep, hm] at hmain
  | exited => exact hend hm

/-- Until all is done somebody moves: whoever has the lock, or else `main`, a thread that still
counts or one that has its socket to close. -/
theorem somebody_moves (h : Sound limit s) (hstop : s.accounts.continueFlag = false)
    (hended : ¬ Ended s) : ∃ a, remaining (step limit s a) < remaining s := by
  have hmain (hlock : s.accounts.main = .locking → s.accounts.lock = none)
      (hwait : s.accounts.main = .waiting → s.accounts.threadCount = 0)
      (hend : s.accounts.main ≠ .exited) : ∃ a, remaining (step limit s a) < remaining s :=
    ⟨.main .timeout {}, main_moves hstop hlock hwait hend⟩
  have hthread {i : ℕ} {pc : ThreadPc} (hi : s.accounts.threads[i]? = some pc)
      (hlock : pc = .locking → s.accounts.lock = none)
      (hopen : pc = .gone → ∃ fd, s.socks[i]? = some (some fd)) :
      ∃ a, remaining (step limit s a) < remaining s :=
    ⟨.thread i true, thread_moves h hi hlock hopen⟩
  cases hl : s.accounts.lock with
  | some holder =>
    cases holder with
    | main =>
      have hholds := h.accounts.mainHolds.mp hl
      have hne (pc : MainPc) (hpc : pc.holds = false) : s.accounts.main ≠ pc := by
        intro hm
        rw [hm, hpc] at hholds
        cases hholds
      exact hmain (fun hm => absurd hm (hne _ rfl)) (fun hm => absurd hm (hne _ rfl)) (hne _ rfl)
    | thread i =>
      obtain ⟨pc, hi, hpc⟩ := Option.map_eq_some_iff.mp ((h.accounts.threadHolds i).mp hl)
      refine hthread hi ?_ ?_ <;> rintro rfl <;> cases hpc
  | none =>
    by_cases hend : s.accounts.main = .exited
    · -- what is open is a thread's
      have hopened : s.opened ≠ [] := fun hnil => hended ⟨hend, hnil⟩
      obtain ⟨fd, hfd⟩ := List.exists_mem_of_ne_nil _ hopened
      have hnone := h.inHand
      rw [hend] at hnone
      have hnone : s.comesock = none := by simpa [MainPc.inHand] using hnone
      have howned := h.owned.perm.mem_iff.mp hfd
      rw [State.owned, hnone] at howned
      obtain ⟨o, ho, rfl⟩ := List.mem_filterMap.mp howned
      obtain ⟨i, hi⟩ := List.mem_iff_getElem?.mp ho
      have hbound : i < s.accounts.threads.length := by
        rw [← h.length]
        exact (List.getElem?_eq_some_iff.mp hi).1
      exact hthread (List.getElem?_eq_getElem hbound) (fun _ => hl) fun _ => ⟨fd, hi⟩
    · by_cases hwait : s.accounts.main = .waiting ∧ s.accounts.threadCount ≠ 0
      · -- a thread that counts
        have hcount := h.accounts.count
        rw [hwait.1] at hcount
        have hlive : 0 < liveThreads s.accounts := by
          have hne := hwait.2
          simp only [MainPc.uncounted] at hcount
          omega
        obtain ⟨pc, hpc, hlive⟩ := List.countP_pos_iff.mp hlive
        obtain ⟨i, hi⟩ := List.mem_iff_getElem?.mp hpc
        refine hthread hi (fun _ => hl) ?_
        rintro rfl
        cases hlive
      · exact hmain (fun _ => hl) (fun hm => by_contra fun hne => hwait ⟨hm, hne⟩) hend

theorem stays_stopped (hstop : s.accounts.continueFlag = false) (a : Action) :
    (step limit s a).accounts.continueFlag = false := by
  cases a with
  | main waited f =>
    have hmain (g : Findings) :
        (ConnectionAccounting.mainStep limit s.accounts g).continueFlag = false := by
      unfold ConnectionAccounting.mainStep
      split <;> (try split_ifs) <;> exact hstop
    simp only [step, mainStep]
    split <;> (try split_ifs) <;> simp [hmain]
  | thread i leave =>
    have hthread : (ConnectionAccounting.threadStep s.accounts i leave).continueFlag = false := by
      unfold ConnectionAccounting.threadStep
      split <;> (try split_ifs) <;> exact hstop
    simp only [step, threadStep]
    split <;> simp [hthread, hstop]
  | stop => rfl

/-- Behind a stop, in every state of every run: each step of `main` or of a thread brings the end
nearer by one at least or is a wait that changes nothing; until `main` is at its end and every
connection is closed somebody does not wait; and so all comes to its end. -/
theorem shutdown_completes (limit : Limit) (as : List Action)
    (hstop : (run (step limit) initial as).accounts.continueFlag = false) :
    let s := run (step limit) initial as
    (∀ a, step limit s a = s ∨ remaining (step limit s a) < remaining s) ∧
      (¬ Ended s → ∃ a, remaining (step limit s a) < remaining s) ∧
      ∃ bs, bs.length ≤ remaining s ∧ Ended (run (step limit) initial (as ++ bs)) := by
  have h := run_sound limit as
  refine ⟨step_remaining h hstop, somebody_moves h hstop, ?_⟩
  obtain ⟨bs, hlen, hended⟩ := exists_run
    (I := fun s => Sound limit s ∧ s.accounts.continueFlag = false)
    (fun _ a hs => ⟨step_sound hs.1 a, stays_stopped hs.2 a⟩)
    (fun _ hs hd => somebody_moves hs.1 hs.2 hd) ⟨h, hstop⟩
  exact ⟨bs, hlen, by rwa [run_append]⟩

/-- A connection is accepted, and the stop comes before it has a thread. -/
def stoppedRun : List Action := [.main (.readable (.ok 3)) {}, .stop]

theorem shutdown_completes_stoppedRun :
    let limit : Limit := ⟨1, by decide, by decide⟩
    let s := run (step limit) initial stoppedRun
    (∀ a, step limit s a = s ∨ remaining (step limit s a) < remaining s) ∧
      (¬ Ended s → ∃ a, remaining (step limit s a) < remaining s) ∧
      ∃ bs, bs.length ≤ remaining s ∧ Ended (run (step limit) initial (stoppedRun ++ bs)) :=
  shutdown_completes ⟨1, by decide, by decide⟩ stoppedRun (by decide)

end Shutdown
end DemoStorage.ConnectionDescriptors
