import DemoStorage.TrackerProtocol
import DemoStorage.ConditionedRuns
import Mathlib.Logic.Function.Basic

/-!
# Negotiation of the sync source

The reporters of a process ask their trackers for the server to sync from, one at a time
under `reporter_thread_lock`, until one exchange has returned 0; each of them tells its
tracker the source afterwards. A reporter is followed from the start of its thread, the
barrier left out, through every connection it makes; the exchange is taken apart into its
three packages. The globals are written between the second and the third. An answer of a wrong
length ends the process.
-/

namespace DemoStorage.SyncNegotiation
open ByteStrings PosixFileTree SocketTransfers DaemonState ConditionedRuns TrackerProtocol

/-- Program points of a reporter. From `checking` to `unlocking` it has the lock; within the
exchange the source before it is kept, and the one that was delivered. -/
inductive Pc where
  | starting
  | connecting
  | locking
  | checking
  | answering (before : SyncSource)
  | confirming (before delivered : SyncSource)
  | returned (result : Errno)
  | saving
  | unlocking
  | notifying
  | beating
  | stopped
  deriving DecidableEq

/-- A reporter with its private `sync_old_done` and its connection. -/
structure Reporter where
  pc : Pc
  syncOldDone : Bool
  inbound : Inbound
  outbound : Outbound

/-- A call of `tracker_sync_dest_req` that has returned: the globals before and behind it,
the source it was sent, and its result. -/
structure Exchange where
  before : SyncSource
  after : SyncSource
  delivered : Option SyncSource
  result : Errno
  deriving DecidableEq

/-- The last two fields are ghosts: the exchanges, and the sources sent to trackers. -/
structure State (ι : Type) where
  syncOldDone : Bool
  source : SyncSource
  continueFlag : Bool
  killed : Bool
  lock : Option ι
  reporter : ι → Reporter
  exchanges : List Exchange
  notified : List SyncSource

/-- What a step of a reporter finds. -/
structure Findings where
  /-- the connection made at the top of the loop, or none -/
  connection : Option (Inbound × Outbound) := none
  lockFails : Bool := false
  saveFails : Bool := false
  disconnects : Bool := false
  errno : Errno := 0

inductive Action (ι : Type) where
  | step (t : ι) (f : Findings)
  | stop

def initial (ι : Type) : State ι where
  syncOldDone := false
  source := noSource
  continueFlag := true
  killed := false
  lock := none
  reporter := fun _ => ⟨.starting, false, ⟨[], []⟩, ⟨[], []⟩⟩
  exchanges := []
  notified := []

section System
variable {ι : Type} [DecidableEq ι]

def State.put (s : State ι) (t : ι) (r : Reporter) : State ι :=
  { s with reporter := Function.update s.reporter t r }

/-- Move a reporter to another program point. -/
def State.goto (s : State ι) (t : ι) (pc : Pc) : State ι := s.put t { s.reporter t with pc := pc }

/-- The exchange returns. -/
def State.finish (s : State ι) (t : ι) (r : Reporter) (e : Exchange) : State ι :=
  { s.put t { r with pc := .returned e.result } with
    source := e.after, exchanges := s.exchanges ++ [e] }

/-- `tracker_sync_notify`, unless there is no source. -/
def notify (s : State ι) (t : ι) (errno : Errno) : State ι :=
  if s.source.ipAddr = [] then s.goto t .beating
  else
    let r := s.reporter t
    let q := sendPackage errno r.outbound (syncNotifyPackage s.source)
    { s.put t { r with outbound := q.1, pc := if q.2 = 0 then .beating else .connecting } with
      notified := s.notified ++ [s.source] }

def reporterStep (s : State ι) (t : ι) (f : Findings) : State ι :=
  let r := s.reporter t
  match r.pc with
  | .starting => s.put t { r with pc := .connecting, syncOldDone := s.syncOldDone }
  | .connecting =>
    if s.continueFlag = false then s.goto t .stopped
    else match f.connection with
      | none => s
      | some (inb, out) =>
        s.put t ⟨if r.syncOldDone then .notifying else .locking, r.syncOldDone, inb, out⟩
  | .locking =>
    if f.lockFails then s.goto t .connecting
    else if s.lock.isSome then s
    else { s.goto t .checking with lock := some t }
  | .checking =>
    if s.syncOldDone then s.goto t .unlocking
    else
      let q := sendPackage f.errno r.outbound syncDestRequest
      if q.2 ≠ 0 then s.finish t { r with outbound := q.1 } ⟨s.source, s.source, none, q.2⟩
      else s.put t { r with outbound := q.1, pc := .answering s.source }
  | .answering before =>
    let a := recvSyncDest f.errno r.inbound
    match a.2 with
    | .failed e => s.finish t { r with inbound := a.1 } ⟨before, s.source, none, e⟩
    | .empty => s.finish t { r with inbound := a.1 } ⟨before, s.source, none, 0⟩
    | .fatal => { s with killed := true }
    | .source d =>
      { s.put t { r with inbound := a.1, pc := .confirming before d } with source := d }
  | .confirming before d =>
    let q := sendPackage f.errno r.outbound syncDestConfirmation
    s.finish t { r with outbound := q.1 } ⟨before, s.source, some d, q.2⟩
  | .returned e =>
    if e = 0 then { s.goto t .saving with syncOldDone := true }
    else { s.goto t .connecting with lock := none }
  | .saving =>
    if f.saveFails then { s.goto t .stopped with lock := none, continueFlag := false }
    else s.goto t .unlocking
  | .unlocking => { s.put t { r with pc := .notifying, syncOldDone := true } with lock := none }
  | .notifying => notify s t f.errno
  | .beating => if f.disconnects then s.goto t .connecting else s
  | .stopped => s

def step (s : State ι) : Action ι → State ι
  | .step t f => if s.killed then s else reporterStep s t f
  | .stop => { s with continueFlag := false }

/-- The exchanges that returned 0. -/
def wins (es : List Exchange) : List Exchange := es.filter fun e => e.result = 0

/-- The steps between the test of `g_sync_old_done` and the return of the exchange are a call
of `tracker_sync_dest_req`, also where it does not return. -/
theorem exchange_steps {s : State ι} {t : ι} (hpc : (s.reporter t).pc = .checking)
    (hd : s.syncOldDone = false) (hk : s.killed = false) (e : ExchangeErrnos) :
    ∃ fs : List Findings, fs.length ≤ 3 ∧
      let r := trackerSyncDestReq e (s.reporter t).inbound (s.reporter t).outbound s.source
      let s' := run step s (fs.map (Action.step t))
      s'.source = r.2.2.1 ∧ s'.killed = r.2.2.2.isNone ∧ ∀ result, r.2.2.2 = some result →
        s'.reporter t = ⟨.returned result, (s.reporter t).syncOldDone, r.1, r.2.1⟩ := by
  by_cases hq : (sendPackage e.request (s.reporter t).outbound syncDestRequest).2 = 0
  · cases ha : (recvSyncDest e.answer (s.reporter t).inbound).2 with
    | failed r =>
      refine ⟨[{ errno := e.request }, { errno := e.answer }], by simp, ?_⟩
      simp [step, reporterStep, hpc, hd, hk, hq, ha, State.put, State.finish, trackerSyncDestReq]
    | empty =>
      refine ⟨[{ errno := e.request }, { errno := e.answer }], by simp, ?_⟩
      simp [step, reporterStep, hpc, hd, hk, hq, ha, State.put, State.finish, trackerSyncDestReq]
    | fatal =>
      refine ⟨[{ errno := e.request }, { errno := e.answer }], by simp, ?_⟩
      simp [step, reporterStep, hpc, hd, hk, hq, ha, State.put, trackerSyncDestReq]
    | source d =>
      refine ⟨[{ errno := e.request }, { errno := e.answer }, { errno := e.confirm }],
        by simp, ?_⟩
      simp [step, reporterStep, hpc, hd, hk, hq, ha, State.put, State.finish, trackerSyncDestReq]
  · refine ⟨[{ errno := e.request }], by simp, ?_⟩
    simp [step, reporterStep, hpc, hd, hk, hq, State.put, State.finish, trackerSyncDestReq]

/-- What the negotiation owes: an exchange that fails leaves the globals alone, one at most
succeeds, and what is sent to a tracker is what that one delivered. -/
structure Negotiated (s : State ι) : Prop where
  fails : ∀ e ∈ s.exchanges, e.result ≠ 0 → e.after = e.before
  once : (wins s.exchanges).length ≤ 1
  notified : ∀ m ∈ s.notified, ∃ e ∈ wins s.exchanges, e.delivered = some m

/-- The condition: where a full answer cannot be confirmed it holds what the globals held. -/
def Confirms (s : State ι) : Action ι → Prop
  | .step t _ => s.killed = false → ∀ before d, (s.reporter t).pc = .confirming before d →
      (tcpsenddata (s.reporter t).outbound (some syncDestConfirmation)).1 = 1 ∨ d = before
  | .stop => True

def Pc.holds : Pc → Bool
  | .checking | .answering _ | .confirming _ _ | .returned _ | .saving | .unlocking => true
  | .starting | .connecting | .locking | .notifying | .beating | .stopped => false

/-- No exchange has succeeded, and the globals are as at the start. -/
def Open (s : State ι) : Prop := wins s.exchanges = [] ∧ s.source = noSource

/-- One exchange has succeeded, and the globals are what it left. -/
def Settled (s : State ι) : Prop :=
  ∃ e, wins s.exchanges = [e] ∧
    (e.delivered = some s.source ∨ e.delivered = none ∧ s.source = noSource)

/-- The state of the negotiation while no exchange is under way. -/
def Idle (s : State ι) : Prop := if s.syncOldDone then Settled s else Open s

/-- What holds while the holder of the lock is at a program point. -/
def Phase (s : State ι) : Pc → Prop
  | .checking => Idle s
  | .answering before => s.syncOldDone = false ∧ before = noSource ∧ Open s
  | .confirming before d =>
    s.syncOldDone = false ∧ before = noSource ∧ wins s.exchanges = [] ∧ s.source = d
  | .returned r => s.syncOldDone = false ∧ if r = 0 then Settled s else Open s
  | .saving => s.syncOldDone = true ∧ Settled s
  | .unlocking => s.syncOldDone = true ∧ Settled s
  | .notifying => s.syncOldDone = true
  | .starting | .connecting | .locking | .beating | .stopped => True

structure Inv (s : State ι) : Prop where
  holds : ∀ t, (s.reporter t).pc.holds = true ↔ s.lock = some t
  free : s.lock = none → Idle s
  phase : ∀ t, Phase s (s.reporter t).pc
  done : ∀ t, (s.reporter t).syncOldDone = true → s.syncOldDone = true
  fails : ∀ e ∈ s.exchanges, e.result ≠ 0 → e.after = e.before
  notified : ∀ m ∈ s.notified, m = s.source ∧ m.ipAddr ≠ [] ∧ s.syncOldDone = true

omit [DecidableEq ι] in
theorem inv_initial : Inv (initial ι) := by
  constructor
  · simp [initial, Pc.holds]
  · intro
    exact ⟨rfl, rfl⟩
  · intro t
    trivial
  · simp [initial]
  · simp [initial]
  · simp [initial]

theorem wins_append (es : List Exchange) (e : Exchange) :
    wins (es ++ [e]) = if e.result = 0 then wins es ++ [e] else wins es := by
  by_cases h : e.result = 0 <;> simp [wins, h]

omit [DecidableEq ι] in
/-- The phases look at the globals and the exchanges only. -/
theorem Phase.congr {s s' : State ι} {pc : Pc} (h : Phase s pc)
    (hdone : s'.syncOldDone = s.syncOldDone) (hsrc : s'.source = s.source)
    (hex : s'.exchanges = s.exchanges) : Phase s' pc := by
  unfold Phase at h ⊢
  simp only [Idle, Open, Settled, hdone, hsrc, hex] at h ⊢
  exact h

section Steps
variable {s : State ι} {t : ι}

/-- A step of the reporter with the lock, of one that takes it, or of one that gives it back. -/
theorem Inv.of_held {s' : State ι} {r : Reporter} (h : Inv s) (hl : ∀ u, u ≠ t → s.lock ≠ some u)
    (hrep : s'.reporter = Function.update s.reporter t r)
    (hlock : s'.lock = if r.pc.holds then some t else none) (hnot : s'.notified = s.notified)
    (hdone : s.syncOldDone = true → s'.syncOldDone = true ∧ s'.source = s.source)
    (hfree : r.pc.holds = false → Idle s') (hphase : Phase s' r.pc)
    (hpriv : r.syncOldDone = true → s'.syncOldDone = true)
    (hfails : ∀ e ∈ s'.exchanges, e.result ≠ 0 → e.after = e.before) : Inv s' := by
  have hself : s'.reporter t = r := by simp [hrep]
  have hother : ∀ u, u ≠ t → s'.reporter u = s.reporter u := by
    intro u hu
    simp [hrep, hu]
  have hout : ∀ u, u ≠ t → (s.reporter u).pc.holds = false := by
    intro u hu
    have := (h.holds u).mp.mt (hl u hu)
    simpa using this
  constructor
  · intro u
    by_cases hu : u = t
    · rw [hu, hself, hlock]
      split_ifs with hr <;> simp [hr]
    · rw [hother u hu, hout u hu, hlock]
      split_ifs <;> simp [Ne.symm hu]
  · intro hn
    apply hfree
    by_contra hr
    rw [hlock, if_pos (by simpa using hr)] at hn
    cases hn
  · intro u
    by_cases hu : u = t
    · rw [hu, hself]
      exact hphase
    · have hp := h.phase u
      have hno := hout u hu
      rw [hother u hu]
      cases hpc : (s.reporter u).pc with
      | notifying =>
        rw [hpc] at hp
        exact (hdone hp).1
      | starting => trivial
      | connecting => trivial
      | locking => trivial
      | beating => trivial
      | stopped => trivial
      | _ =>
        rw [hpc] at hno
        cases hno
  · intro u hu
    by_cases hut : u = t
    · rw [hut, hself] at hu
      exact hpriv hu
    · rw [hother u hut] at hu
      exact (hdone (h.done u hu)).1
  · exact hfails
  · intro m hm
    rw [hnot] at hm
    obtain ⟨h1, h2, h3⟩ := h.notified m hm
    obtain ⟨h4, h5⟩ := hdone h3
    exact ⟨by rw [h1, h5], h2, h4⟩

/-- A step of a reporter without the lock. -/
theorem Inv.of_free {r : Reporter} {ns : List SyncSource} (h : Inv s)
    (ht : (s.reporter t).pc.holds = false) (hr : r.pc.holds = false) (hphase : Phase s r.pc)
    (hpriv : r.syncOldDone = true → s.syncOldDone = true)
    (hns : ∀ m ∈ ns, m = s.source ∧ m.ipAddr ≠ [] ∧ s.syncOldDone = true) :
    Inv { s.put t r with notified := ns } := by
  have hself : ({ s.put t r with notified := ns } : State ι).reporter t = r := by
    simp [State.put]
  have hother : ∀ u, u ≠ t →
      ({ s.put t r with notified := ns } : State ι).reporter u = s.reporter u := by
    intro u hu
    simp [State.put, hu]
  constructor
  · intro u
    by_cases hu : u = t
    · have := h.holds t
      rw [hu, hself, hr, ← ht]
      exact this
    · rw [hother u hu]
      exact h.holds u
  · exact h.free
  · intro u
    by_cases hu : u = t
    · rw [hu, hself]
      exact hphase
    · rw [hother u hu]
      exact h.phase u
  · intro u hu
    by_cases hut : u = t
    · rw [hut, hself] at hu
      exact hpriv hu
    · rw [hother u hut] at hu
      exact h.done u hu
  · exact h.fails
  · exact hns

omit [DecidableEq ι] in
theorem Inv.lock_only (h : Inv s) (ht : (s.reporter t).pc.holds = true) {u : ι} (hu : u ≠ t) :
    s.lock ≠ some u := by
  rw [(h.holds t).mp ht]
  simpa using Ne.symm hu

/-- A step of a reporter without the lock that notifies nobody. -/
theorem Inv.put_free {r : Reporter} (h : Inv s) (ht : (s.reporter t).pc.holds = false)
    (hr : r.pc.holds = false) (hphase : Phase s r.pc)
    (hpriv : r.syncOldDone = true → s.syncOldDone = true) : Inv (s.put t r) :=
  h.of_free ht hr hphase hpriv h.notified

omit [DecidableEq ι] in
theorem Idle.cases (h : Idle s) : s.syncOldDone = false ∧ wins s.exchanges = [] ∨ Settled s := by
  unfold Idle at h
  split_ifs at h with hd
  · exact .inr h
  · exact .inl ⟨by simpa using hd, h.1⟩

omit [DecidableEq ι] in
/-- No exchange has succeeded, or one has and the globals are what it left. -/
theorem Inv.cases (h : Inv s) : s.syncOldDone = false ∧ wins s.exchanges = [] ∨ Settled s := by
  cases hl : s.lock with
  | none => exact (h.free hl).cases
  | some t =>
    have hp := h.phase t
    have ht := (h.holds t).mpr hl
    cases hpc : (s.reporter t).pc with
    | checking =>
      rw [hpc] at hp
      exact Idle.cases hp
    | answering before =>
      rw [hpc] at hp
      exact .inl ⟨hp.1, hp.2.2.1⟩
    | confirming before d =>
      rw [hpc] at hp
      exact .inl ⟨hp.1, hp.2.2.1⟩
    | returned r =>
      rw [hpc] at hp
      obtain ⟨hd, hp⟩ := hp
      split_ifs at hp
      · exact .inr hp
      · exact .inl ⟨hd, hp.1⟩
    | saving =>
      rw [hpc] at hp
      exact .inr hp.2
    | unlocking =>
      rw [hpc] at hp
      exact .inr hp.2
    | _ =>
      rw [hpc] at ht
      cases ht

omit [DecidableEq ι] in
theorem Inv.negotiated (h : Inv s) : Negotiated s := by
  constructor
  · exact h.fails
  · rcases h.cases with ⟨-, hw⟩ | ⟨e, hw, -⟩
    · simp [hw]
    · simp [hw]
  · intro m hm
    obtain ⟨hm, hne, hd⟩ := h.notified m hm
    rcases h.cases with ⟨hn, -⟩ | ⟨e, hw, hsrc⟩
    · exact absurd (hn.symm.trans hd) (by decide)
    · refine ⟨e, by rw [hw]; exact List.mem_singleton_self e, ?_⟩
      rcases hsrc with hsrc | ⟨-, hsrc⟩
      · rw [hm, hsrc]
      · rw [hm, hsrc] at hne
        exact absurd rfl hne

/-- The exchange returns to the reporter with the lock. -/
theorem Inv.finish (h : Inv s) (ht : (s.reporter t).pc.holds = true) {r : Reporter} {e : Exchange}
    (hopen : s.syncOldDone = false) (hw : wins s.exchanges = [])
    (hpriv : r.syncOldDone = (s.reporter t).syncOldDone)
    (hok : e.result = 0 → e.delivered = some e.after ∨ e.delivered = none ∧ e.after = noSource)
    (hfail : e.result ≠ 0 → e.after = e.before ∧ e.before = noSource) : Inv (s.finish t r e) := by
  have hl : ∀ u, u ≠ t → s.lock ≠ some u := fun u hu => h.lock_only ht hu
  apply h.of_held hl (r := { r with pc := .returned e.result })
  · rfl
  · simpa [State.finish, State.put, Pc.holds] using (h.holds t).mp ht
  · rfl
  · intro hd
    exact absurd (hopen.symm.trans hd) (by decide)
  · intro hr
    cases hr
  · refine ⟨hopen, ?_⟩
    have hwins : wins (s.finish t r e).exchanges = if e.result = 0 then [e] else [] := by
      simp only [State.finish, wins_append, hw, List.nil_append]
    split_ifs with he
    · rw [if_pos he] at hwins
      exact ⟨e, hwins, hok he⟩
    · rw [if_neg he] at hwins
      obtain ⟨h1, h2⟩ := hfail he
      exact ⟨hwins, h1.trans h2⟩
  · intro hd
    exact h.done t (hpriv ▸ hd)
  · intro x hx hne
    rcases List.mem_append.mp hx with hold | hnew
    · exact h.fails x hold hne
    · obtain rfl := List.mem_singleton.mp hnew
      exact (hfail hne).1

/-- A step under the lock that changes nothing shared. -/
theorem Inv.put_held (h : Inv s) (ht : (s.reporter t).pc.holds = true) {r : Reporter}
    (hr : r.pc.holds = true) (hphase : Phase s r.pc)
    (hpriv : r.syncOldDone = true → s.syncOldDone = true) : Inv (s.put t r) := by
  apply h.of_held (fun u hu => h.lock_only ht hu) (r := r)
  · rfl
  · rw [if_pos hr]
    exact (h.holds t).mp ht
  · rfl
  · intro hd
    exact ⟨hd, rfl⟩
  · intro hn
    exact absurd (hr.symm.trans hn) (by decide)
  · exact hphase
  · exact hpriv
  · exact h.fails

/-- The lock is given back. -/
theorem Inv.release (h : Inv s) (ht : (s.reporter t).pc.holds = true) {r : Reporter} {c : Bool}
    (hr : r.pc.holds = false) (hidle : Idle s) (hphase : Phase s r.pc)
    (hpriv : r.syncOldDone = true → s.syncOldDone = true) :
    Inv { s.put t r with lock := none, continueFlag := c } := by
  apply h.of_held (fun u hu => h.lock_only ht hu) (r := r)
  · rfl
  · simp [hr]
  · rfl
  · intro hd
    exact ⟨hd, rfl⟩
  · intro
    exact hidle
  · exact hphase.congr rfl rfl rfl
  · exact hpriv
  · exact h.fails

theorem Inv.acquire (h : Inv s) (hl : s.lock = none) :
    Inv { s.goto t .checking with lock := some t } := by
  apply h.of_held (r := { s.reporter t with pc := .checking })
  · intro u _ hu
    exact absurd (hl.symm.trans hu) (by simp)
  · rfl
  · rfl
  · rfl
  · intro hd
    exact ⟨hd, rfl⟩
  · intro hn
    cases hn
  · exact h.free hl
  · exact h.done t
  · exact h.fails

omit [DecidableEq ι] in
theorem Inv.phase_at (h : Inv s) {pc : Pc} (hpc : (s.reporter t).pc = pc) : Phase s pc :=
  hpc ▸ h.phase t

omit [DecidableEq ι] in
theorem Settled.idle (h : Settled s) (hd : s.syncOldDone = true) : Idle s := by
  rw [Idle, if_pos hd]
  exact h

theorem Inv.checking (h : Inv s) (hpc : (s.reporter t).pc = .checking) (f : Findings) :
    Inv (reporterStep s t f) := by
  have ht : (s.reporter t).pc.holds = true := by rw [hpc]; rfl
  have hidle : Idle s := h.phase_at hpc
  simp only [reporterStep, hpc]
  unfold Idle at hidle
  split_ifs at hidle ⊢ with hd hq
  · exact h.put_held ht rfl ⟨hd, hidle⟩ (h.done t)
  · obtain ⟨hw, hsrc⟩ := hidle
    exact h.finish ht (by simpa using hd) hw rfl (fun he => absurd he hq) fun _ => ⟨rfl, hsrc⟩
  · exact h.put_held ht rfl ⟨by simpa using hd, hidle.2, hidle⟩ (h.done t)

theorem Inv.answering (h : Inv s) {before : SyncSource}
    (hpc : (s.reporter t).pc = .answering before) (f : Findings) : Inv (reporterStep s t f) := by
  have ht : (s.reporter t).pc.holds = true := by rw [hpc]; rfl
  obtain ⟨hd, hbefore, hw, hsrc⟩ := h.phase_at hpc
  simp only [reporterStep, hpc]
  split
  · rename_i e he
    have hne := recvSyncDest_ne_zero he
    exact h.finish ht hd hw rfl (fun h0 => absurd h0 hne) fun _ => ⟨hsrc.trans hbefore.symm, hbefore⟩
  · exact h.finish ht hd hw rfl (fun _ => .inr ⟨rfl, hsrc⟩) fun hne => absurd rfl hne
  · exact ⟨h.holds, h.free, fun u => (h.phase u).congr rfl rfl rfl, h.done, h.fails, h.notified⟩
  · rename_i d _
    apply h.of_held (fun u hu => h.lock_only ht hu)
      (r := { s.reporter t with
        inbound := (recvSyncDest f.errno (s.reporter t).inbound).1, pc := .confirming before d })
    · rfl
    · exact (h.holds t).mp ht
    · rfl
    · intro hd'
      exact absurd (hd.symm.trans hd') (by decide)
    · intro hn
      cases hn
    · exact ⟨hd, hbefore, hw, rfl⟩
    · exact h.done t
    · exact h.fails

theorem Inv.confirming (h : Inv s) {before d : SyncSource}
    (hpc : (s.reporter t).pc = .confirming before d) (hk : s.killed = false) {f : Findings}
    (hc : Confirms s (.step t f)) : Inv (reporterStep s t f) := by
  have ht : (s.reporter t).pc.holds = true := by rw [hpc]; rfl
  obtain ⟨hd, hbefore, hw, hsrc⟩ := h.phase_at hpc
  simp only [reporterStep, hpc]
  refine h.finish ht hd hw rfl ?_ ?_
  · intro
    exact .inl (congrArg some hsrc.symm)
  · intro hne
    rcases hc hk before d hpc with hsent | hsame
    · exact absurd (sendPackage_eq_zero.mpr hsent) hne
    · exact ⟨hsrc.trans hsame, hbefore⟩

theorem Inv.returned (h : Inv s) {e : Errno} (hpc : (s.reporter t).pc = .returned e)
    (f : Findings) : Inv (reporterStep s t f) := by
  have ht : (s.reporter t).pc.holds = true := by rw [hpc]; rfl
  obtain ⟨hd, hp⟩ := h.phase_at hpc
  simp only [reporterStep, hpc]
  split_ifs at hp ⊢ with he
  · apply h.of_held (fun u hu => h.lock_only ht hu) (r := { s.reporter t with pc := .saving })
    · rfl
    · exact (h.holds t).mp ht
    · rfl
    · intro hd'
      exact absurd (hd.symm.trans hd') (by decide)
    · intro hn
      cases hn
    · exact ⟨rfl, hp⟩
    · intro
      rfl
    · exact h.fails
  · have hidle : Idle s := by
      rw [Idle, hd]
      exact hp
    exact h.release ht rfl hidle trivial (h.done t)

theorem Inv.saving (h : Inv s) (hpc : (s.reporter t).pc = .saving) (f : Findings) :
    Inv (reporterStep s t f) := by
  have ht : (s.reporter t).pc.holds = true := by rw [hpc]; rfl
  obtain ⟨hd, hset⟩ := h.phase_at hpc
  have hidle : Idle s := hset.idle hd
  simp only [reporterStep, hpc]
  split_ifs
  · exact h.release ht rfl hidle trivial (h.done t)
  · exact h.put_held ht rfl ⟨hd, hset⟩ (h.done t)

theorem Inv.unlocking (h : Inv s) (hpc : (s.reporter t).pc = .unlocking) (f : Findings) :
    Inv (reporterStep s t f) := by
  have ht : (s.reporter t).pc.holds = true := by rw [hpc]; rfl
  obtain ⟨hd, hset⟩ := h.phase_at hpc
  have hidle : Idle s := hset.idle hd
  simp only [reporterStep, hpc]
  exact h.release ht rfl hidle hd fun _ => hd

theorem Inv.connecting (h : Inv s) (hpc : (s.reporter t).pc = .connecting) (f : Findings) :
    Inv (reporterStep s t f) := by
  have ht : (s.reporter t).pc.holds = false := by rw [hpc]; rfl
  simp only [reporterStep, hpc]
  split
  · exact h.put_free ht rfl trivial (h.done t)
  · split
    · exact h
    · split
      · rename_i hd
        exact h.put_free ht rfl (h.done t hd) (h.done t)
      · exact h.put_free ht rfl trivial (h.done t)

theorem Inv.notifying (h : Inv s) (hpc : (s.reporter t).pc = .notifying) (f : Findings) :
    Inv (reporterStep s t f) := by
  have hp : s.syncOldDone = true := h.phase_at hpc
  have ht : (s.reporter t).pc.holds = false := by rw [hpc]; rfl
  simp only [reporterStep, hpc, notify]
  have hns (hsrc : s.source.ipAddr ≠ []) : ∀ m ∈ s.notified ++ [s.source],
      m = s.source ∧ m.ipAddr ≠ [] ∧ s.syncOldDone = true := by
    intro m hm
    rcases List.mem_append.mp hm with hold | hnew
    · exact h.notified m hold
    · obtain rfl := List.mem_singleton.mp hnew
      exact ⟨rfl, hsrc, hp⟩
  split_ifs with hsrc hq
  · exact h.put_free ht rfl trivial (h.done t)
  · exact h.of_free ht rfl trivial (h.done t) (hns hsrc)
  · exact h.of_free ht rfl trivial (h.done t) (hns hsrc)

theorem Inv.after_step (h : Inv s) {a : Action ι} (hc : Confirms s a) : Inv (step s a) := by
  cases a with
  | stop =>
    exact ⟨h.holds, h.free, fun t => (h.phase t).congr rfl rfl rfl, h.done, h.fails, h.notified⟩
  | step t f =>
    rw [step]
    split_ifs with hk
    · exact h
    cases hpc : (s.reporter t).pc with
    | starting =>
      simp only [reporterStep, hpc]
      exact h.put_free (by rw [hpc]; rfl) rfl trivial id
    | connecting => exact h.connecting hpc f
    | locking =>
      have ht : (s.reporter t).pc.holds = false := by rw [hpc]; rfl
      simp only [reporterStep, hpc]
      split_ifs with hf hl
      · exact h.put_free ht rfl trivial (h.done t)
      · exact h
      · exact h.acquire (by simpa using hl)
    | checking => exact h.checking hpc f
    | answering before => exact h.answering hpc f
    | confirming before d => exact h.confirming hpc (by simpa using hk) hc
    | returned e => exact h.returned hpc f
    | saving => exact h.saving hpc f
    | unlocking => exact h.unlocking hpc f
    | notifying => exact h.notifying hpc f
    | beating =>
      simp only [reporterStep, hpc]
      split_ifs
      · exact h.put_free (by rw [hpc]; rfl) rfl trivial (h.done t)
      · exact h
    | stopped => simpa only [reporterStep, hpc] using h

/-- A full answer that cannot be confirmed leaves the globals changed by a failed exchange. -/
theorem Inv.breaks (h : Inv s) {a : Action ι} (hc : ¬ Confirms s a) : ¬ Negotiated (step s a) := by
  intro hn
  apply hc
  cases a with
  | stop => trivial
  | step t f =>
    intro hk before d hpc
    by_contra hor
    obtain ⟨hsent, hne⟩ := not_or.mp hor
    obtain ⟨-, -, -, hsrc⟩ := h.phase_at hpc
    apply hne
    rw [← hsrc]
    set e : Exchange := ⟨before, s.source, some d,
      (sendPackage f.errno (s.reporter t).outbound syncDestConfirmation).2⟩ with he
    have hmem : e ∈ (step s (.step t f)).exchanges := by
      simp only [step, hk, Bool.false_eq_true, if_false, reporterStep, hpc, State.finish]
      exact List.mem_append_right _ (List.mem_singleton_self e)
    exact hn.fails e hmem (mt sendPackage_eq_zero.mp hsent)

end Steps

/-- The negotiation keeps its promises throughout a run exactly when each full answer that
cannot be confirmed holds what the globals held. -/
theorem negotiated_iff_confirms (as : List (Action ι)) :
    (∀ bs, bs <+: as → Negotiated (run step (initial ι) bs)) ↔
      Meets step Confirms (initial ι) as := by
  apply meets_iff_always (I := Inv)
  · exact inv_initial
  · intro s hs
    exact hs.negotiated
  · intro s a hs hc
    exact hs.after_step hc
  · intro s a hs hc
    exact hs.breaks hc

end System

/-- A tracker that names a server and whose connection breaks before the confirmation, and a
tracker that has no server to name. -/
def brokenTracker : Inbound × Outbound :=
  (⟨requestHeader (ascii "19") TRACKER_PROTO_CMD_STORAGE_RESP ++
      padField FDFS_IPADDR_SIZE (ascii "10.0.0.1") ++ padField 9 (ascii "5"), []⟩,
    ⟨[], [.accept 11, .writeError]⟩)

def emptyTracker : Inbound × Outbound :=
  (⟨requestHeader (ascii "0") TRACKER_PROTO_CMD_STORAGE_RESP, []⟩, ⟨[], []⟩)

/-- One reporter up to its failed exchange, then another one up to its notification. -/
def twoReporters : List (Action Bool) :=
  [.step true {}, .step true { connection := some brokenTracker }, .step true {}, .step true {},
    .step true {}, .step true {}, .step true {},
    .step false {}, .step false { connection := some emptyTracker }, .step false {},
    .step false {}, .step false {}, .step false {}, .step false {}, .step false {},
    .step false {}]

/-- The second reporter notifies the server that the failed exchange of the first one left. -/
theorem twoReporters_not_negotiated : ¬ Negotiated (run step (initial Bool) twoReporters) := by
  intro h
  have hwins : wins (run step (initial Bool) twoReporters).exchanges =
      [⟨⟨ascii "10.0.0.1", 5⟩, ⟨ascii "10.0.0.1", 5⟩, none, 0⟩] := by decide
  have hnot : (run step (initial Bool) twoReporters).notified = [⟨ascii "10.0.0.1", 5⟩] := by
    decide
  have hmem : ⟨ascii "10.0.0.1", 5⟩ ∈ (run step (initial Bool) twoReporters).notified := by
    rw [hnot]
    exact List.mem_singleton_self _
  obtain ⟨e, he, hd⟩ := h.notified _ hmem
  rw [hwins] at he
  obtain rfl := List.mem_singleton.mp he
  cases hd

end DemoStorage.SyncNegotiation
