import DemoStorage.TraceAcceptors
import DemoStorage.WireContents
import DemoStorage.RequestDecoding
import DemoStorage.LoadedSettings

/-!
# The sessions of a reporter

A reporter connects to its tracker, joins, negotiates the sync source under the lock unless
that is done, names the source and then sends heart beats and reports until something fails or
the daemon stops. A thread is followed call by call through all of its sessions; what the other
threads make of the globals is what each step finds in them. Three acceptors read its calls:
one keeps the open descriptor, one the lock, and one is the session as the tracker sees it.
-/

namespace DemoStorage.ReporterSessions
open ByteStrings PosixFileTree SocketTransfers GeneratedNames DaemonState RequestHandlers
open ServiceThread TrackerProtocol HeartBeats WireContents ConditionedRuns TraceAcceptors
open RequestDecoding (length_padField)
open IniFiles (IniQsort IniFaults)
open LoadedSettings (LoadEnv Settings storageLoadFromConfFile loaded_of_success)

/-- The settings a reporter reads; loading leaves no interval that is not positive. -/
structure Reporting where
  cfg : Config
  serverPort : ℤ
  heartBeatInterval : ℤ
  statReportInterval : ℤ
  heartBeat_pos : 0 < heartBeatInterval
  statReport_pos : 0 < statReportInterval

/-- The settings that are loaded. -/
def Reporting.ofSettings {q : IniQsort} {f : IniFaults} {env : LoadEnv} {text : Bytes} {w : World}
    {g : Settings} (cfg : Config) (h : (storageLoadFromConfFile q f env text w g).1 = 0) :
    Reporting where
  cfg := cfg
  serverPort := (storageLoadFromConfFile q f env text w g).2.serverPort
  heartBeatInterval := (storageLoadFromConfFile q f env text w g).2.heartBeatInterval
  statReportInterval := (storageLoadFromConfFile q f env text w g).2.statReportInterval
  heartBeat_pos := (loaded_of_success h).positive.1
  statReport_pos := (loaded_of_success h).positive.2.1

def Reporting.sleepSecs (c : Reporting) : ℤ :=
  if c.heartBeatInterval < c.statReportInterval then c.heartBeatInterval else c.statReportInterval

/-- Program points of `tracker_report_thread_entrance`. From `checking` to `unlocking` the
thread has the lock; `refused` is behind an exchange that failed, `dead` behind one in which the
process died. -/
inductive Pc where
  | starting
  | barrier
  | connecting
  | opened
  | joining
  | locking
  | checking
  | refused
  | saving
  | unlocking
  | notifying
  | turning
  | leaving
  | counting
  | ended
  | dead
  deriving DecidableEq

/-- The locals of the thread, its descriptor and the connection behind it. -/
structure Reporter where
  pc : Pc
  sock : ℤ
  inbound : Inbound
  outbound : Outbound
  syncOldDone : Bool
  statChgSyncCount : ℤ
  currentTime : ℤ
  lastReportTime : ℤ
  lastBeatTime : ℤ

/-- What a step finds: the globals it reads and the outcomes of its calls. -/
structure Findings where
  continueFlag : Bool := true
  /-- the flag as it is read a second time -/
  stillContinues : Bool := true
  barrierClosed : Bool := false
  socket : ℤ := 3
  /-- what a connection that is made will do with what is received and sent -/
  connection : Option (Inbound × List SendEvent) := some (⟨[], []⟩, [])
  clientIp : Bytes := []
  syncOldDone : Bool := true
  source : SyncSource := noSource
  lockFails : Bool := false
  saveFails : Bool := false
  exchange : ExchangeErrnos := {}
  now : ℤ := 0
  stat : FDFSStorageStat := ⟨0, 0, 0, 0, 0, 0, 0, 0, 0, 0, 0, 0⟩
  statChangeCount : ℤ := 1
  sizes : Option (ℤ × ℤ) := some (0, 0)
  stack : ℕ → Byte := fun _ => 0
  errno : Errno := 0

/-- The calls a tracker, the kernel or another thread can tell. -/
inductive Event where
  | socket (fd : ℤ)
  | connect (fd : ℤ) (done : Bool)
  | insertIntoLocalHostIp (clientIp : Bytes)
  | send (fd : ℤ) (package : Bytes) (done : Bool)
  | recv (fd : ℤ)
  | close (fd : ℤ)
  | lock
  | unlock
  | time (now : ℤ)
  | sleep (secs : ℤ)

section Packages

def joinPackage (c : Reporting) : Bytes :=
  requestHeader (hexadecimal sizeofJoinBody) TRACKER_PROTO_CMD_STORAGE_JOIN ++
    padField (FDFS_GROUP_NAME_MAX_LEN.toNat + 1) c.cfg.groupName ++
    padField TRACKER_PROTO_PKG_LEN_SIZE (hexadecimal c.serverPort)

def quitPackage (stack : ℕ → Byte) : Bytes :=
  fillField TRACKER_PROTO_PKG_LEN_SIZE [48, 0] stack ++ [TRACKER_PROTO_CMD_STORAGE_QUIT, 0]

def statReportPackage (stack : ℕ → Byte) (totalMb freeMb : ℤ) : Bytes :=
  fillField TRACKER_PROTO_PKG_LEN_SIZE (hexadecimal sizeofStatReportBody ++ [0]) stack ++
    ([TRACKER_PROTO_CMD_STORAGE_REPORT, 0] ++ (int2buff totalMb ++ int2buff freeMb))

theorem trackerReportJoin_eq (c : Reporting) (errno : Errno) (out : Outbound) :
    trackerReportJoin c.cfg c.serverPort errno out = sendPackage errno out (joinPackage c) := rfl

theorem trackerQuit_eq (stack : ℕ → Byte) (errno : Errno) (out : Outbound) :
    trackerQuit stack errno out = sendPackage errno out (quitPackage stack) := rfl

theorem trackerReportStat_eq (stack : ℕ → Byte) (errno : Errno) (totalMb freeMb : ℤ)
    (out : Outbound) : trackerReportStat stack errno (some (totalMb, freeMb)) out =
      sendPackage errno out (statReportPackage stack totalMb freeMb) := rfl

/-- The command a package carries. -/
def cmdOf (package : Bytes) : Byte := (decodeHeader package).cmd

theorem cmdOf_append {field : Bytes} (h : field.length = 9) (cmd : Byte) (rest : Bytes) :
    cmdOf (field ++ cmd :: rest) = cmd := by
  simp [cmdOf, decodeHeader, List.drop_left' h]

theorem cmdOf_requestHeader {pkgLen : Bytes} (h : pkgLen.length ≤ 9) (cmd : Byte) (rest : Bytes) :
    cmdOf (requestHeader pkgLen cmd ++ rest) = cmd := by
  rw [requestHeader, List.append_assoc]
  exact cmdOf_append (length_padField h) cmd (0 :: rest)

@[simp] theorem cmdOf_joinPackage (c : Reporting) :
    cmdOf (joinPackage c) = TRACKER_PROTO_CMD_STORAGE_JOIN := by
  rw [joinPackage, List.append_assoc]
  exact cmdOf_requestHeader (by decide) _ _

@[simp] theorem cmdOf_quitPackage (stack : ℕ → Byte) :
    cmdOf (quitPackage stack) = TRACKER_PROTO_CMD_STORAGE_QUIT :=
  cmdOf_append (length_fillField _ _ _) _ _

@[simp] theorem cmdOf_statReportPackage (stack : ℕ → Byte) (totalMb freeMb : ℤ) :
    cmdOf (statReportPackage stack totalMb freeMb) = TRACKER_PROTO_CMD_STORAGE_REPORT :=
  cmdOf_append (length_fillField _ _ _) _ _

@[simp] theorem cmdOf_syncDestRequest :
    cmdOf syncDestRequest = TRACKER_PROTO_CMD_STORAGE_SYNC_DEST_REQ := by decide

@[simp] theorem cmdOf_syncDestConfirmation :
    cmdOf syncDestConfirmation = TRACKER_PROTO_CMD_STORAGE_RESP := by decide

@[simp] theorem cmdOf_syncNotifyPackage (s : SyncSource) :
    cmdOf (syncNotifyPackage s) = TRACKER_PROTO_CMD_STORAGE_SYNC_NOTIFY := by
  rw [syncNotifyPackage, List.append_assoc]
  exact cmdOf_requestHeader (by decide) _ _

@[simp] theorem cmdOf_beatPackage (stack : ℕ → Byte) (a b : ℤ) (s : FDFSStorageStat) :
    cmdOf (beatPackage stack a b s).1 = TRACKER_PROTO_CMD_STORAGE_BEAT := by
  unfold beatPackage
  split_ifs
  · rw [beatHeader, List.append_assoc]
    exact cmdOf_append (length_fillField _ _ _) _ _
  · exact cmdOf_append (length_fillField _ _ _) _ _

end Packages

section Thread
variable (c : Reporting)

/-- `tracker_quit`, whatever comes of it, and the wait for the next session. -/
def giveUp (r : Reporter) (f : Findings) : Reporter × List Event :=
  let q := trackerQuit f.stack f.errno r.outbound
  ({ r with outbound := q.1, pc := .connecting },
    [.send r.sock (quitPackage f.stack) (q.2 = 0), .sleep c.heartBeatInterval])

/-- The calls of `tracker_sync_dest_req`. -/
def exchangeEvents (sock : ℤ) (e : ExchangeErrnos) (inb : Inbound) (out : Outbound) :
    List Event :=
  let q := sendPackage e.request out syncDestRequest
  .send sock syncDestRequest (q.2 = 0) :: if q.2 ≠ 0 then [] else
    .recv sock :: match (recvSyncDest e.answer inb).2 with
      | .source _ => [.send sock syncDestConfirmation
          ((sendPackage e.confirm q.1 syncDestConfirmation).2 = 0)]
      | _ => []

/-- A heart beat if one is due; `false` breaks the loop. -/
def beat (r : Reporter) (f : Findings) : Reporter × List Event × Bool :=
  if r.currentTime - r.lastBeatTime ≥ c.heartBeatInterval then
    let p := beatPackage f.stack r.statChgSyncCount f.statChangeCount f.stat
    let b := trackerHeartBeat f.stack f.errno r.outbound r.statChgSyncCount f.statChangeCount f.stat
    let r := { r with outbound := b.1, statChgSyncCount := b.2.1 }
    if b.2.2 ≠ 0 then (r, [.send r.sock p.1 false], false)
    else ({ r with lastBeatTime := r.currentTime }, [.send r.sock p.1 true], true)
  else (r, [], true)

/-- A report if one is due; without the sizes of the disk nothing is sent. -/
def report (r : Reporter) (f : Findings) : Reporter × List Event × Bool :=
  if r.currentTime - r.lastReportTime ≥ c.statReportInterval then
    let q := trackerReportStat f.stack f.errno f.sizes r.outbound
    let r := { r with outbound := q.1 }
    let sent := match f.sizes with
      | none => []
      | some (totalMb, freeMb) =>
        [.send r.sock (statReportPackage f.stack totalMb freeMb) (q.2 = 0)]
    if q.2 ≠ 0 then (r, sent, false) else ({ r with lastReportTime := r.currentTime }, sent, true)
  else (r, [], true)

/-- A turn of the inner loop. -/
def turn (r : Reporter) (f : Findings) : Reporter × List Event :=
  let b := beat c { r with currentTime := f.now } f
  if b.2.2 = false then ({ b.1 with pc := .leaving }, .time f.now :: b.2.1)
  else
    let s := report c b.1 f
    if s.2.2 = false then ({ s.1 with pc := .leaving }, .time f.now :: (b.2.1 ++ s.2.1))
    else (s.1, .time f.now :: (b.2.1 ++ (s.2.1 ++ [.sleep c.sleepSecs])))

/-- Where the exchange leaves the thread. -/
def Pc.behind : Option Errno → Pc
  | some result => if result = 0 then .saving else .refused
  | none => .dead

def reporterStep (r : Reporter) (f : Findings) : Reporter × List Event :=
  match r.pc with
  | .starting => ({ r with
      pc := .barrier, sock := -1, syncOldDone := f.syncOldDone, statChgSyncCount := 0 }, [])
  | .barrier =>
    if f.continueFlag ∧ f.barrierClosed then (r, [.sleep 1]) else ({ r with pc := .connecting }, [])
  | .connecting =>
    if f.continueFlag = false then ({ r with pc := .counting }, [])
    else
      let closed := if 0 ≤ r.sock then [.close r.sock] else []
      -- a socket that cannot be made stops the daemon
      if f.socket < 0 then ({ r with sock := f.socket, pc := .counting }, closed)
      else ({ r with sock := f.socket, inbound := ⟨[], []⟩, outbound := ⟨[], []⟩, pc := .opened },
        closed ++ [.socket f.socket])
  | .opened => match f.connection with
    | none =>
      ({ r with pc := .connecting }, [.connect r.sock false, .sleep c.heartBeatInterval])
    | some (inb, evs) => ({ r with inbound := inb, outbound := ⟨[], evs⟩, pc := .joining },
        [.connect r.sock true, .insertIntoLocalHostIp f.clientIp])
  | .joining =>
    let q := trackerReportJoin c.cfg c.serverPort f.errno r.outbound
    if q.2 ≠ 0 then ({ r with outbound := q.1, pc := .connecting },
      [.send r.sock (joinPackage c) false, .sleep c.heartBeatInterval])
    else ({ r with outbound := q.1, pc := if r.syncOldDone then .notifying else .locking },
      [.send r.sock (joinPackage c) true])
  | .locking => if f.lockFails then giveUp c r f else ({ r with pc := .checking }, [.lock])
  | .checking =>
    if f.syncOldDone then ({ r with pc := .unlocking }, [])
    else
      let x := trackerSyncDestReq f.exchange r.inbound r.outbound f.source
      ({ r with inbound := x.1, outbound := x.2.1, pc := .behind x.2.2.2 },
        exchangeEvents r.sock f.exchange r.inbound r.outbound)
  | .refused => ((giveUp c r f).1, .unlock :: (giveUp c r f).2)
  | .saving =>
    -- a state that cannot be written stops the daemon
    if f.saveFails then ({ r with pc := .counting }, [.unlock])
    else ({ r with pc := .unlocking }, [])
  | .unlocking => ({ r with syncOldDone := true, pc := .notifying }, [.unlock])
  | .notifying =>
    let started := { r with lastReportTime := 0, lastBeatTime := 0, pc := .turning }
    if f.source.ipAddr = [] then (started, [])
    else
      let q := trackerSyncNotify f.source f.errno r.outbound
      if q.2 ≠ 0 then
        ((giveUp c { r with outbound := q.1 } f).1,
          .send r.sock (syncNotifyPackage f.source) false :: (giveUp c { r with outbound := q.1 } f).2)
      else ({ started with outbound := q.1 }, [.send r.sock (syncNotifyPackage f.source) true])
  | .turning => if f.continueFlag then turn c r f else ({ r with pc := .leaving }, [])
  | .leaving =>
    let q := trackerQuit f.stack f.errno r.outbound
    ({ r with sock := -1, pc := .connecting, outbound := if f.continueFlag then r.outbound else q.1 },
      (if f.continueFlag then [] else [.send r.sock (quitPackage f.stack) (q.2 = 0)]) ++
        .close r.sock :: (if f.stillContinues then [.sleep c.sleepSecs] else []))
  | .counting => ({ r with pc := .ended }, (if f.lockFails then [] else [.lock]) ++ [.unlock])
  | .ended | .dead => (r, [])

end Thread

/-- How far a session has come, as its tracker can tell. Behind `torn` a package was not
delivered whole, and behind `broken` a heart beat or a report; behind `over` nothing more is sent,
and behind `left` nothing more in a session that came to the heart beats. -/
inductive Stage where
  | opened
  | connected
  | joined
  | asked
  | answered
  | confirmed
  | notified
  | beating
  | torn
  | broken
  | over
  | left
  deriving DecidableEq

/-- The sync source is out of the way. -/
def Stage.settled : Stage → Bool
  | .joined | .answered | .confirmed => true
  | _ => false

/-- Heart beats may follow. -/
def Stage.ready : Stage → Bool
  | .notified | .beating => true
  | s => s.settled

/-- A `QUIT` may end the session. -/
def Stage.mayQuit : Stage → Bool
  | .torn | .broken => true
  | s => s.ready

/-- The session has come to the heart beats. -/
def Stage.behindBeats : Stage → Bool
  | .beating | .broken | .left => true
  | _ => false

/-- A package with this command: where it may be sent, and what follows it. -/
def Stage.send (s : Stage) (cmd : Byte) (done : Bool) : Option Stage :=
  if cmd = TRACKER_PROTO_CMD_STORAGE_JOIN then
    if s = .connected then some (if done then .joined else .over) else none
  else if cmd = TRACKER_PROTO_CMD_STORAGE_SYNC_DEST_REQ then
    if s = .joined then some (if done then .asked else .torn) else none
  else if cmd = TRACKER_PROTO_CMD_STORAGE_RESP then
    if s = .answered then some (if done then .confirmed else .torn) else none
  else if cmd = TRACKER_PROTO_CMD_STORAGE_SYNC_NOTIFY then
    if s.settled then some (if done then .notified else .torn) else none
  else if cmd = TRACKER_PROTO_CMD_STORAGE_BEAT ∨ cmd = TRACKER_PROTO_CMD_STORAGE_REPORT then
    if s = .beating then some (if done then .beating else .broken) else none
  else if cmd = TRACKER_PROTO_CMD_STORAGE_QUIT then
    if s.mayQuit then some (if s.behindBeats then .left else .over) else none
  else none

def Stage.next : Stage → Event → Option Stage
  | .opened, .connect _ done => some (if done then .connected else .over)
  | .connected, .insertIntoLocalHostIp _ => some .connected
  | .asked, .recv _ => some .answered
  | s, .send _ package done => s.send (cmdOf package) done
  | s, .time _ => if s.ready then some .beating else none
  | s, .lock | s, .unlock | s, .sleep _ => some s
  | _, _ => none

/-- The descriptor of the session, if there is one, and its stage. -/
abbrev Session := Option (ℤ × Stage)

def Session.next : Session → Event → Option Session
  | none, .socket fd => some (some (fd, .opened))
  | none, .lock | none, .unlock | none, .sleep _ => some none
  | none, _ => none
  | some (fd, _), .close fd' => if fd' = fd then some none else none
  | some (fd, s), .connect fd' done =>
    if fd' = fd then (s.next (.connect fd' done)).map fun t => some (fd, t) else none
  | some (fd, s), .send fd' package done =>
    if fd' = fd then (s.next (.send fd' package done)).map fun t => some (fd, t) else none
  | some (fd, s), .recv fd' =>
    if fd' = fd then (s.next (.recv fd')).map fun t => some (fd, t) else none
  | some (fd, s), e => (s.next e).map fun t => some (fd, t)

section Acceptor
variable (fd : ℤ) (s : Stage) (done : Bool)

@[simp] theorem next_send (package : Bytes) :
    Session.next (some (fd, s)) (.send fd package done) =
      (s.send (cmdOf package) done).map fun t => some (fd, t) := by
  simp only [Session.next, if_true]
  cases s <;> rfl

@[simp] theorem next_recv :
    Session.next (some (fd, .asked)) (.recv fd) = some (some (fd, .answered)) := by
  simp [Session.next, Stage.next]

@[simp] theorem next_connect : Session.next (some (fd, .opened)) (.connect fd done) =
    some (some (fd, if done then .connected else .over)) := by
  simp [Session.next, Stage.next]

@[simp] theorem next_close : Session.next (some (fd, s)) (.close fd) = some none := by
  simp [Session.next]

@[simp] theorem next_socket : Session.next none (.socket fd) = some (some (fd, .opened)) := rfl

@[simp] theorem next_sleep (a : Session) (secs : ℤ) : Session.next a (.sleep secs) = some a := by
  obtain _ | ⟨g, _⟩ := a
  · rfl
  · simp [Session.next, Stage.next]

@[simp] theorem next_lock (a : Session) : Session.next a .lock = some a := by
  obtain _ | ⟨g, _⟩ := a
  · rfl
  · simp [Session.next, Stage.next]

@[simp] theorem next_unlock (a : Session) : Session.next a .unlock = some a := by
  obtain _ | ⟨g, _⟩ := a
  · rfl
  · simp [Session.next, Stage.next]

@[simp] theorem next_time {s : Stage} (h : s.ready = true) (now : ℤ) :
    Session.next (some (fd, s)) (.time now) = some (some (fd, .beating)) := by
  simp [Session.next, Stage.next, h]

@[simp] theorem send_join : Stage.send .connected TRACKER_PROTO_CMD_STORAGE_JOIN done =
    some (if done then .joined else .over) := rfl

@[simp] theorem send_destReq : Stage.send .joined TRACKER_PROTO_CMD_STORAGE_SYNC_DEST_REQ done =
    some (if done then .asked else .torn) := rfl

@[simp] theorem send_resp : Stage.send .answered TRACKER_PROTO_CMD_STORAGE_RESP done =
    some (if done then .confirmed else .torn) := rfl

theorem send_notify {s : Stage} (h : s.settled = true) :
    s.send TRACKER_PROTO_CMD_STORAGE_SYNC_NOTIFY done =
      some (if done then .notified else .torn) := by
  cases s <;> first | rfl | cases h

@[simp] theorem send_beat : Stage.send .beating TRACKER_PROTO_CMD_STORAGE_BEAT done =
    some (if done then .beating else .broken) := rfl

@[simp] theorem send_report : Stage.send .beating TRACKER_PROTO_CMD_STORAGE_REPORT done =
    some (if done then .beating else .broken) := rfl

theorem send_quit {s : Stage} (h : s.mayQuit = true) :
    s.send TRACKER_PROTO_CMD_STORAGE_QUIT done = some (if s.behindBeats then .left else .over) := by
  cases s <;> first | rfl | cases h

end Acceptor

/-- The stages a session can have at a program point. -/
def Pc.allows : Pc → Stage → Bool
  | .starting, _ | .barrier, _ => false
  | .connecting, s => s = .over
  | .counting, s | .ended, s => s = .over ∨ s = .answered ∨ s = .confirmed
  | .opened, s => s = .opened
  | .joining, s => s = .connected
  | .locking, s | .checking, s => s = .joined
  | .dead, s => s = .answered
  | .refused, s => s = .answered ∨ s = .torn
  | .saving, s => s = .answered ∨ s = .confirmed
  | .unlocking, s | .notifying, s => s.settled
  | .turning, s => s.ready
  | .leaving, s => s.mayQuit

/-- There may be no session. -/
def Pc.closed : Pc → Bool
  | .starting | .barrier | .connecting | .counting | .ended => true
  | _ => false

/-- The descriptor of the reporter is that of its session. -/
def Fits (r : Reporter) (a : Session) : Prop :=
  a = none ∧ r.pc.closed = true ∧ (r.pc = .starting ∨ r.sock < 0) ∨
    ∃ s, a = some (r.sock, s) ∧ 0 ≤ r.sock ∧ r.pc.allows s = true

section Sessions
variable {c : Reporting} {r : Reporter} {a : Session}

theorem fits_of_stage {s : Stage} (hs : 0 ≤ r.sock) (h : r.pc.allows s = true) :
    Fits r (some (r.sock, s)) := .inr ⟨s, rfl, hs, h⟩

/-- A program point within a session. -/
theorem Fits.open (h : Fits r a) (hpc : r.pc.closed = false) :
    ∃ s, a = some (r.sock, s) ∧ 0 ≤ r.sock ∧ r.pc.allows s = true := by
  obtain ⟨-, hc, -⟩ | h := h
  · rw [hpc] at hc
    cases hc
  · exact h

/-- A session that is given up before the heart beats ends with a `QUIT`. -/
theorem giveUp_reads {s : Stage} (f : Findings) (hs : 0 ≤ r.sock) (hq : s.mayQuit = true)
    (hb : s.behindBeats = false) :
    Reads Session.next Fits (some (r.sock, s)) (giveUp c r f) := by
  refine ⟨some (r.sock, .over), ?_, fits_of_stage hs rfl⟩
  simp [giveUp, send_quit _ hq, hb]

/-- The exchange is a request, what is received, and the confirmation of a full answer. -/
theorem exchange_reads (sock : ℤ) (e : ExchangeErrnos) (inb : Inbound) (out : Outbound)
    (g : SyncSource) : ∃ s, drive Session.next (some (sock, .joined))
        (exchangeEvents sock e inb out) = some (some (sock, s)) ∧
      (Pc.behind (trackerSyncDestReq e inb out g).2.2.2).allows s = true := by
  by_cases hq : (sendPackage e.request out syncDestRequest).2 = 0
  · cases ha : (recvSyncDest e.answer inb).2 with
    | failed x =>
      have hx := recvSyncDest_ne_zero ha
      refine ⟨.answered, ?_, ?_⟩
      · simp [exchangeEvents, hq, ha]
      · simp [trackerSyncDestReq, hq, ha, hx, Pc.behind, Pc.allows]
    | empty =>
      refine ⟨.answered, ?_, ?_⟩
      · simp [exchangeEvents, hq, ha]
      · simp [trackerSyncDestReq, hq, ha, Pc.behind, Pc.allows]
    | fatal =>
      refine ⟨.answered, ?_, ?_⟩
      · simp [exchangeEvents, hq, ha]
      · simp [trackerSyncDestReq, hq, ha, Pc.behind, Pc.allows]
    | source d =>
      by_cases hc : (sendPackage e.confirm (sendPackage e.request out syncDestRequest).1
          syncDestConfirmation).2 = 0
      · refine ⟨.confirmed, ?_, ?_⟩
        · simp [exchangeEvents, hq, ha, hc]
        · simp [trackerSyncDestReq, hq, ha, hc, Pc.behind, Pc.allows]
      · refine ⟨.torn, ?_, ?_⟩
        · simp [exchangeEvents, hq, ha, hc]
        · simp [trackerSyncDestReq, hq, ha, hc, Pc.behind, Pc.allows]
  · refine ⟨.torn, ?_, ?_⟩
    · simp [exchangeEvents, hq]
    · simp [trackerSyncDestReq, hq, Pc.behind, Pc.allows]

/-- A part of a turn: the session goes on unless the part fails. -/
structure Part (r : Reporter) (x : Reporter × List Event × Bool) : Prop where
  pc : x.1.pc = r.pc
  sock : x.1.sock = r.sock
  reads : ∃ s, drive Session.next (some (r.sock, .beating)) x.2.1 = some (some (r.sock, s)) ∧
    s.mayQuit = true ∧ (x.2.2 = true → s = .beating)

theorem beat_part (r : Reporter) (f : Findings) : Part r (beat c r f) := by
  unfold beat
  split_ifs with hdue
  · dsimp only
    split_ifs
    · exact ⟨rfl, rfl, .broken, by simp, rfl, by simp⟩
    · exact ⟨rfl, rfl, .beating, by simp, rfl, fun _ => rfl⟩
  · exact ⟨rfl, rfl, .beating, rfl, rfl, fun _ => rfl⟩

theorem report_part (r : Reporter) (f : Findings) : Part r (report c r f) := by
  unfold report
  split_ifs with hdue
  · cases f.sizes with
    | none =>
      dsimp only
      split_ifs
      · exact ⟨rfl, rfl, .beating, rfl, rfl, fun _ => rfl⟩
      · exact ⟨rfl, rfl, .beating, rfl, rfl, fun _ => rfl⟩
    | some sizes =>
      dsimp only
      split_ifs with hq
      · exact ⟨rfl, rfl, .broken, by simp [hq], rfl, by simp⟩
      · refine ⟨rfl, rfl, .beating, ?_, rfl, fun _ => rfl⟩
        simp [not_not.mp hq]
  · exact ⟨rfl, rfl, .beating, rfl, rfl, fun _ => rfl⟩

theorem turn_reads {s : Stage} (f : Findings) (hpc : r.pc = .turning) (hs : 0 ≤ r.sock)
    (hready : s.ready = true) : Reads Session.next Fits (some (r.sock, s)) (turn c r f) := by
  have htime (es : List Event) : drive Session.next (some (r.sock, s)) (.time f.now :: es) =
      drive Session.next (some (r.sock, .beating)) es := by
    simp [hready]
  obtain ⟨hpcs, hsock, t, ht, hquit, hon⟩ := @beat_part c { r with currentTime := f.now } f
  unfold turn
  dsimp only at hpcs hsock ht ⊢
  generalize beat c { r with currentTime := f.now } f = b at hpcs hsock ht hquit hon
  split_ifs with hfail hfail'
  · refine ⟨some (r.sock, t), (htime _).trans ht, .inr ⟨t, ?_, ?_, hquit⟩⟩
    · rw [← hsock]
    · rwa [← hsock] at hs
  · obtain rfl := hon (by simpa using hfail)
    obtain ⟨-, hsock', u, hu, hquit', -⟩ := @report_part c b.1 f
    refine ⟨some (r.sock, u), ?_, .inr ⟨u, ?_, ?_, hquit'⟩⟩
    · rw [htime, drive_append, ht, Option.bind_some, ← hsock]
      exact hu
    · rw [← hsock, ← hsock']
    · rwa [← hsock, ← hsock'] at hs
  · obtain rfl := hon (by simpa using hfail)
    obtain ⟨hpc', hsock', u, hu, -, hon'⟩ := @report_part c b.1 f
    obtain rfl := hon' (by simpa using hfail')
    refine ⟨some (r.sock, .beating), ?_, .inr ⟨.beating, ?_, ?_, ?_⟩⟩
    · rw [htime, drive_append, ht, Option.bind_some, drive_append, ← hsock, hu]
      rfl
    · rw [← hsock, ← hsock']
    · rwa [← hsock, ← hsock'] at hs
    · rw [hpc', hpcs, hpc]
      rfl

theorem reporterStep_reads (h : Fits r a) (f : Findings) :
    Reads Session.next Fits a (reporterStep c r f) := by
  have hgone {r' : Reporter} (hs : r'.sock < 0) (hpc : r'.pc.closed = true) : Fits r' none :=
    .inl ⟨rfl, hpc, .inr hs⟩
  have hminus : (-1 : ℤ) < 0 := by decide
  cases hpc : r.pc with
  | starting =>
    obtain ⟨rfl, -, -⟩ | ⟨s, -, -, hs⟩ := h
    · simp only [reporterStep, hpc]
      exact ⟨none, rfl, hgone hminus rfl⟩
    · rw [hpc] at hs
      cases hs
  | barrier =>
    obtain ⟨rfl, -, hs⟩ | ⟨s, -, -, hs⟩ := h
    · have hneg : r.sock < 0 := hs.resolve_left (by simp [hpc])
      simp only [reporterStep, hpc]
      split_ifs
      · exact ⟨none, rfl, hgone hneg (by rw [hpc]; rfl)⟩
      · exact ⟨none, rfl, hgone hneg rfl⟩
    · rw [hpc] at hs
      cases hs
  | connecting =>
    simp only [reporterStep, hpc]
    obtain ⟨rfl, -, hs⟩ | ⟨s, rfl, h0, hs⟩ := h
    · have hneg : r.sock < 0 := hs.resolve_left (by simp [hpc])
      have hclosed : ¬ 0 ≤ r.sock := not_le.mpr hneg
      simp only [hclosed, if_false]
      split_ifs with hf hsock
      · exact ⟨none, rfl, hgone hneg rfl⟩
      · exact ⟨none, rfl, hgone hsock rfl⟩
      · exact ⟨some (f.socket, .opened), rfl, .inr ⟨.opened, rfl, not_lt.mp hsock, rfl⟩⟩
    · rw [hpc] at hs
      obtain rfl : s = .over := by simpa [Pc.allows] using hs
      simp only [h0, if_true]
      split_ifs with hf hsock
      · exact ⟨_, rfl, .inr ⟨.over, rfl, h0, rfl⟩⟩
      · exact ⟨none, by simp, hgone hsock rfl⟩
      · exact ⟨some (f.socket, .opened), by simp, .inr ⟨.opened, rfl, not_lt.mp hsock, rfl⟩⟩
  | opened =>
    obtain ⟨s, rfl, h0, hs⟩ := h.open (by rw [hpc]; rfl)
    rw [hpc] at hs
    obtain rfl : s = .opened := by simpa [Pc.allows] using hs
    simp only [reporterStep, hpc]
    cases f.connection with
    | none => exact ⟨some (r.sock, .over), by simp, .inr ⟨.over, rfl, h0, rfl⟩⟩
    | some x =>
      refine ⟨some (r.sock, .connected), ?_, .inr ⟨.connected, rfl, h0, rfl⟩⟩
      simp [Session.next, Stage.next]
  | joining =>
    obtain ⟨s, rfl, h0, hs⟩ := h.open (by rw [hpc]; rfl)
    rw [hpc] at hs
    obtain rfl : s = .connected := by simpa [Pc.allows] using hs
    simp only [reporterStep, hpc]
    split_ifs with hq hd
    · exact ⟨some (r.sock, .over), by simp, .inr ⟨.over, rfl, h0, rfl⟩⟩
    · exact ⟨some (r.sock, .joined), by simp, .inr ⟨.joined, rfl, h0, rfl⟩⟩
    · exact ⟨some (r.sock, .joined), by simp, .inr ⟨.joined, rfl, h0, rfl⟩⟩
  | locking =>
    obtain ⟨s, rfl, h0, hs⟩ := h.open (by rw [hpc]; rfl)
    rw [hpc] at hs
    obtain rfl : s = .joined := by simpa [Pc.allows] using hs
    simp only [reporterStep, hpc]
    split_ifs
    · exact giveUp_reads f h0 rfl rfl
    · exact ⟨some (r.sock, .joined), by simp, .inr ⟨.joined, rfl, h0, rfl⟩⟩
  | checking =>
    obtain ⟨s, rfl, h0, hs⟩ := h.open (by rw [hpc]; rfl)
    rw [hpc] at hs
    obtain rfl : s = .joined := by simpa [Pc.allows] using hs
    simp only [reporterStep, hpc]
    obtain ⟨s, hread, hstage⟩ := exchange_reads r.sock f.exchange r.inbound r.outbound f.source
    by_cases hd : f.syncOldDone = true
    · rw [if_pos hd]
      exact ⟨some (r.sock, .joined), rfl, .inr ⟨.joined, rfl, h0, rfl⟩⟩
    · rw [if_neg hd]
      exact ⟨some (r.sock, s), hread, .inr ⟨s, rfl, h0, hstage⟩⟩
  | refused =>
    obtain ⟨s, rfl, h0, hs⟩ := h.open (by rw [hpc]; rfl)
    rw [hpc] at hs
    have hq : s.mayQuit = true ∧ s.behindBeats = false := by
      obtain rfl | rfl : s = .answered ∨ s = .torn := by simpa [Pc.allows] using hs
      · exact ⟨rfl, rfl⟩
      · exact ⟨rfl, rfl⟩
    obtain ⟨b, hb, hfit⟩ := @giveUp_reads c r s f h0 hq.1 hq.2
    simp only [reporterStep, hpc]
    exact ⟨b, by simpa using hb, hfit⟩
  | saving =>
    obtain ⟨s, rfl, h0, hs⟩ := h.open (by rw [hpc]; rfl)
    rw [hpc] at hs
    have hs : s = .answered ∨ s = .confirmed := by simpa [Pc.allows] using hs
    simp only [reporterStep, hpc]
    split_ifs
    · refine ⟨some (r.sock, s), by simp, .inr ⟨s, rfl, h0, ?_⟩⟩
      rcases hs with rfl | rfl <;> rfl
    · refine ⟨some (r.sock, s), rfl, .inr ⟨s, rfl, h0, ?_⟩⟩
      rcases hs with rfl | rfl <;> rfl
  | unlocking =>
    obtain ⟨s, rfl, h0, hs⟩ := h.open (by rw [hpc]; rfl)
    rw [hpc] at hs
    simp only [reporterStep, hpc]
    exact ⟨some (r.sock, s), by simp, .inr ⟨s, rfl, h0, hs⟩⟩
  | notifying =>
    obtain ⟨s, rfl, h0, hs⟩ := h.open (by rw [hpc]; rfl)
    rw [hpc] at hs
    have hs : s.settled = true := hs
    simp only [reporterStep, hpc]
    split_ifs with hip hq
    · refine ⟨some (r.sock, s), rfl, .inr ⟨s, rfl, h0, ?_⟩⟩
      cases s <;> first | rfl | cases hs
    · obtain ⟨b, hb, hfit⟩ := @giveUp_reads c
        { r with pc := .notifying, outbound := (trackerSyncNotify f.source f.errno r.outbound).1 }
        .torn f h0 rfl rfl
      refine ⟨b, ?_, hfit⟩
      simpa [send_notify _ hs] using hb
    · refine ⟨some (r.sock, .notified), ?_, .inr ⟨.notified, rfl, h0, rfl⟩⟩
      simp [send_notify _ hs]
  | turning =>
    obtain ⟨s, rfl, h0, hs⟩ := h.open (by rw [hpc]; rfl)
    rw [hpc] at hs
    have hs : s.ready = true := hs
    simp only [reporterStep, hpc]
    split_ifs
    · exact turn_reads f hpc h0 hs
    · refine ⟨some (r.sock, s), rfl, .inr ⟨s, rfl, h0, ?_⟩⟩
      cases s <;> first | rfl | cases hs
  | leaving =>
    obtain ⟨s, rfl, h0, hs⟩ := h.open (by rw [hpc]; rfl)
    rw [hpc] at hs
    have hs : s.mayQuit = true := hs
    simp only [reporterStep, hpc]
    refine ⟨none, ?_, hgone hminus rfl⟩
    split_ifs <;> simp [send_quit _ hs]
  | counting =>
    simp only [reporterStep, hpc]
    refine ⟨a, ?_, ?_⟩
    · split_ifs <;> simp
    · obtain ⟨rfl, -, hs⟩ | ⟨s, rfl, h0, hs⟩ := h
      · exact hgone (hs.resolve_left (by simp [hpc])) rfl
      · rw [hpc] at hs
        exact .inr ⟨s, rfl, h0, hs⟩
  | ended | dead =>
    simp only [reporterStep, hpc]
    exact ⟨a, rfl, h⟩

end Sessions

section Lock

/-- The lock: only the packages of the exchange are sent and received while it is held. -/
def lockNext : Bool → Event → Option Bool
  | false, .lock => some true
  | false, .unlock => none
  | false, _ => some false
  | true, .unlock => some false
  | true, .send _ _ _ | true, .recv _ => some true
  | true, _ => none

def Pc.holds : Pc → Bool
  | .checking | .refused | .saving | .unlocking | .dead => true
  | _ => false

/-- The mutex can be locked for the final count. -/
def LocksAtEnd (r : Reporter) (f : Findings) : Prop := r.pc = .counting → f.lockFails = false

variable {c : Reporting} {r : Reporter}

theorem lock_exchange (sock : ℤ) (e : ExchangeErrnos) (inb : Inbound) (out : Outbound) :
    drive lockNext true (exchangeEvents sock e inb out) = some true := by
  unfold exchangeEvents
  dsimp only
  split_ifs
  · rfl
  · split <;> rfl

theorem lock_beat (f : Findings) : drive lockNext false (beat c r f).2.1 = some false := by
  unfold beat
  split_ifs
  · dsimp only
    split_ifs <;> rfl
  · rfl

theorem lock_report (f : Findings) : drive lockNext false (report c r f).2.1 = some false := by
  unfold report
  split_ifs
  · cases f.sizes
    · dsimp only
      split_ifs <;> rfl
    · dsimp only
      split_ifs <;> rfl
  · rfl

/-- No turn takes the lock. -/
theorem lock_turn (f : Findings) (hpc : r.pc = .turning) :
    Reads lockNext (fun r held => held = r.pc.holds) false (turn c r f) := by
  have hbeat := @lock_beat c { r with currentTime := f.now } f
  have hpcs := (@beat_part c { r with currentTime := f.now } f).pc
  unfold turn
  dsimp only at hpcs ⊢
  generalize beat c { r with currentTime := f.now } f = b at hbeat hpcs
  have hreport := @lock_report c b.1 f
  have hpcs' := (@report_part c b.1 f).pc
  have htime (es : List Event) : drive lockNext false (.time f.now :: es) =
      drive lockNext false es := rfl
  split_ifs
  · exact ⟨false, hbeat, rfl⟩
  · refine ⟨false, ?_, rfl⟩
    rw [htime, drive_append, hbeat]
    exact hreport
  · have hholds : (report c b.1 f).1.pc.holds = false := by
      rw [hpcs', hpcs, hpc]
      rfl
    refine ⟨false, ?_, hholds.symm⟩
    rw [htime, drive_append, hbeat, Option.bind_some, drive_append, hreport]
    rfl

theorem lock_step {held : Bool} (h : held = r.pc.holds) {f : Findings} (hf : LocksAtEnd r f) :
    Reads lockNext (fun r held => held = r.pc.holds) held (reporterStep c r f) := by
  subst h
  cases hpc : r.pc with
  | starting =>
    simp only [reporterStep, hpc]
    exact ⟨false, rfl, rfl⟩
  | barrier =>
    simp only [reporterStep, hpc]
    split_ifs
    · exact ⟨false, rfl, (congrArg Pc.holds hpc).symm⟩
    · exact ⟨false, rfl, rfl⟩
  | connecting =>
    simp only [reporterStep, hpc]
    split_ifs <;> exact ⟨false, rfl, rfl⟩
  | opened =>
    simp only [reporterStep, hpc]
    cases f.connection <;> exact ⟨false, rfl, rfl⟩
  | joining =>
    simp only [reporterStep, hpc]
    split_ifs <;> exact ⟨false, rfl, rfl⟩
  | locking =>
    simp only [reporterStep, hpc]
    split_ifs
    · exact ⟨false, rfl, rfl⟩
    · exact ⟨true, rfl, rfl⟩
  | checking =>
    simp only [reporterStep, hpc]
    have hex := lock_exchange r.sock f.exchange r.inbound r.outbound
    by_cases hd : f.syncOldDone = true
    · rw [if_pos hd]
      exact ⟨true, rfl, rfl⟩
    · rw [if_neg hd]
      refine ⟨true, hex, ?_⟩
      dsimp only
      rcases (trackerSyncDestReq f.exchange r.inbound r.outbound f.source).2.2.2 with _ | result
      · rfl
      · rw [Pc.behind]
        split_ifs <;> rfl
  | refused =>
    simp only [reporterStep, hpc]
    exact ⟨false, rfl, rfl⟩
  | saving =>
    simp only [reporterStep, hpc]
    split_ifs
    · exact ⟨false, rfl, rfl⟩
    · exact ⟨true, rfl, rfl⟩
  | unlocking =>
    simp only [reporterStep, hpc]
    exact ⟨false, rfl, rfl⟩
  | notifying =>
    simp only [reporterStep, hpc]
    split_ifs <;> exact ⟨false, rfl, rfl⟩
  | turning =>
    simp only [reporterStep, hpc]
    split_ifs
    · exact lock_turn f hpc
    · exact ⟨false, rfl, rfl⟩
  | leaving =>
    simp only [reporterStep, hpc]
    refine ⟨false, ?_, rfl⟩
    split_ifs <;> rfl
  | counting =>
    simp only [reporterStep, hpc, hf hpc]
    exact ⟨false, rfl, rfl⟩
  | ended =>
    simp only [reporterStep, hpc]
    exact ⟨false, rfl, (congrArg Pc.holds hpc).symm⟩
  | dead =>
    simp only [reporterStep, hpc]
    exact ⟨true, rfl, (congrArg Pc.holds hpc).symm⟩

end Lock

section Times

/-- The time of the turn, of the last heart beat and of the last report of a session. -/
structure Clock where
  now : Option ℤ := none
  beat : Option ℤ := none
  report : Option ℤ := none

/-- A message is due: it is the first, or its interval has passed, by less than the gap. -/
def due (interval gap now : ℤ) : Option ℤ → Prop
  | none => True
  | some last => last + interval ≤ now ∧ now < last + interval + gap

/-- A message has been sent within its interval. -/
def recent (interval now : ℤ) : Option ℤ → Prop
  | none => False
  | some last => now < last + interval

instance (interval gap now : ℤ) (last : Option ℤ) : Decidable (due interval gap now last) := by
  cases last
  · exact inferInstanceAs (Decidable True)
  · exact inferInstanceAs (Decidable (_ ∧ _))

instance (interval now : ℤ) (last : Option ℤ) : Decidable (recent interval now last) := by
  cases last
  · exact inferInstanceAs (Decidable False)
  · exact inferInstanceAs (Decidable (_ < _))

/-- The times of a session: each message when it is due, and no sleep while one is. -/
def Clock.next (c : Reporting) (gap : ℤ) (k : Clock) : Event → Option Clock
  | .time now => some { k with now := some now }
  | .send _ package _ =>
    if cmdOf package = TRACKER_PROTO_CMD_STORAGE_BEAT then k.now.bind fun now =>
      if due c.heartBeatInterval gap now k.beat then some { k with beat := some now } else none
    else if cmdOf package = TRACKER_PROTO_CMD_STORAGE_REPORT then k.now.bind fun now =>
      if due c.statReportInterval gap now k.report then some { k with report := some now } else none
    else some k
  | .sleep _ => match k.now with
    | none => some k
    | some now => if recent c.heartBeatInterval now k.beat ∧ recent c.statReportInterval now k.report
      then some k else none
  | .socket _ | .close _ => some {}
  | _ => some k

/-- A turn reads a time past the first intervals, and not later than the gap after the time
of the turn before. -/
def Timely (c : Reporting) (gap : ℤ) (r : Reporter) (f : Findings) : Prop :=
  r.pc = .turning → f.continueFlag = true → c.heartBeatInterval ≤ f.now ∧
    c.statReportInterval ≤ f.now ∧ (r.lastBeatTime ≠ 0 → f.now ≤ r.currentTime + gap)

/-- A timer between the turns: its message was sent less than the interval ago. -/
def Kept (interval now last : ℤ) (sent : Option ℤ) : Prop :=
  sent = some last ∧ 0 < last ∧ now < last + interval

/-- A timer at its part of a turn. -/
def Armed (interval gap now last : ℤ) (sent : Option ℤ) : Prop :=
  sent = none ∧ last = 0 ∧ interval ≤ now ∨
    sent = some last ∧ 0 < last ∧ now < last + interval + gap

/-- What the times of a session owe at a program point. -/
def ClockFits (c : Reporting) (r : Reporter) (k : Clock) : Prop :=
  match r.pc with
  | .turning => k = {} ∧ r.lastBeatTime = 0 ∧ r.lastReportTime = 0 ∨
      k.now = some r.currentTime ∧
        Kept c.heartBeatInterval r.currentTime r.lastBeatTime k.beat ∧
        Kept c.statReportInterval r.currentTime r.lastReportTime k.report
  | .leaving => True
  | _ => k = {}

section
variable {c : Reporting} {r : Reporter} {interval gap now last : ℤ} {sent : Option ℤ} {k : Clock}

theorem Kept.armed {now' : ℤ} (h : Kept interval now last sent) (hgap : now' ≤ now + gap) :
    Armed interval gap now' last sent :=
  .inr ⟨h.1, h.2.1, by have := h.2.2; omega⟩

theorem Kept.recent (h : Kept interval now last sent) : recent interval now sent := by
  obtain ⟨rfl, -, hlt⟩ := h
  exact hlt

theorem Armed.due (h : Armed interval gap now last sent) (hdue : now - last ≥ interval) :
    due interval gap now sent := by
  obtain ⟨rfl, -, -⟩ | ⟨rfl, -, hlt⟩ := h
  · trivial
  · exact ⟨by omega, hlt⟩

theorem Armed.kept (h : Armed interval gap now last sent) (hdue : ¬ now - last ≥ interval) :
    Kept interval now last sent := by
  obtain ⟨rfl, rfl, hle⟩ | ⟨rfl, hpos, -⟩ := h
  · omega
  · exact ⟨rfl, hpos, by omega⟩

/-- A timer whose message has just been sent. -/
theorem kept_self (hi : 0 < interval) (h : 0 < now) : Kept interval now now (some now) :=
  ⟨rfl, h, by omega⟩

theorem next_beat {stack : ℕ → Byte} {a b fd : ℤ} {s : FDFSStorageStat} {done : Bool}
    (hnow : k.now = some now) (hdue : due c.heartBeatInterval gap now k.beat) :
    Clock.next c gap k (.send fd (beatPackage stack a b s).1 done) =
      some { k with beat := some now } := by
  simp [Clock.next, hnow, hdue]

theorem next_report {stack : ℕ → Byte} {a b fd : ℤ} {done : Bool}
    (hnow : k.now = some now) (hdue : due c.statReportInterval gap now k.report) :
    Clock.next c gap k (.send fd (statReportPackage stack a b) done) =
      some { k with report := some now } := by
  have hne : TRACKER_PROTO_CMD_STORAGE_REPORT ≠ TRACKER_PROTO_CMD_STORAGE_BEAT := by decide
  simp [Clock.next, hnow, hdue, hne]

/-- The heart beat of a turn. -/
theorem beat_times (f : Findings) (hnow : k.now = some r.currentTime) (h0 : 0 < r.currentTime)
    (h : Armed c.heartBeatInterval gap r.currentTime r.lastBeatTime k.beat) :
    ∃ b, drive (Clock.next c gap) k (beat c r f).2.1 = some { k with beat := b } ∧
      ((beat c r f).2.2 = true →
        Kept c.heartBeatInterval r.currentTime (beat c r f).1.lastBeatTime b) ∧
      (beat c r f).1.currentTime = r.currentTime ∧
      (beat c r f).1.lastReportTime = r.lastReportTime := by
  unfold beat
  split_ifs with hdue
  · have hnext (done : Bool) := @next_beat c gap _ k f.stack r.statChgSyncCount f.statChangeCount
      r.sock f.stat done hnow (h.due hdue)
    dsimp only
    split_ifs
    · exact ⟨_, by rw [drive_cons, hnext]; rfl, by simp, rfl, rfl⟩
    · exact ⟨_, by rw [drive_cons, hnext]; rfl, fun _ => kept_self c.heartBeat_pos h0, rfl, rfl⟩
  · exact ⟨k.beat, rfl, fun _ => h.kept hdue, rfl, rfl⟩

/-- The report of a turn. -/
theorem report_times (f : Findings) (hnow : k.now = some r.currentTime) (h0 : 0 < r.currentTime)
    (h : Armed c.statReportInterval gap r.currentTime r.lastReportTime k.report) :
    ∃ b, drive (Clock.next c gap) k (report c r f).2.1 = some { k with report := b } ∧
      ((report c r f).2.2 = true →
        Kept c.statReportInterval r.currentTime (report c r f).1.lastReportTime b) ∧
      (report c r f).1.currentTime = r.currentTime ∧
      (report c r f).1.lastBeatTime = r.lastBeatTime := by
  unfold report
  split_ifs with hdue
  · cases f.sizes with
    | none =>
      have hfail : (trackerReportStat f.stack f.errno none r.outbound).2 ≠ 0 :=
        errnoOr_ne_zero (by decide)
      rw [if_pos hfail]
      exact ⟨k.report, rfl, by simp, rfl, rfl⟩
    | some sizes =>
      have hnext (done : Bool) := @next_report c gap _ k f.stack sizes.1 sizes.2 r.sock done hnow
        (h.due hdue)
      dsimp only
      split_ifs
      · exact ⟨_, by rw [drive_cons, hnext]; rfl, by simp, rfl, rfl⟩
      · exact ⟨_, by rw [drive_cons, hnext]; rfl, fun _ => kept_self c.statReport_pos h0, rfl, rfl⟩
  · exact ⟨k.report, rfl, fun _ => h.kept hdue, rfl, rfl⟩

theorem turn_times (f : Findings) (hpc : r.pc = .turning) (hk : ClockFits c r k)
    (hbeat : c.heartBeatInterval ≤ f.now) (hreport : c.statReportInterval ≤ f.now)
    (hgap : r.lastBeatTime ≠ 0 → f.now ≤ r.currentTime + gap) :
    Reads (Clock.next c gap) (ClockFits c) k (turn c r f) := by
  have h0 : 0 < f.now := c.heartBeat_pos.trans_le hbeat
  have harmed : Armed c.heartBeatInterval gap f.now r.lastBeatTime k.beat ∧
      Armed c.statReportInterval gap f.now r.lastReportTime k.report := by
    simp only [ClockFits, hpc] at hk
    obtain ⟨rfl, hb, hr⟩ | ⟨-, hb, hr⟩ := hk
    · exact ⟨.inl ⟨rfl, hb, hbeat⟩, .inl ⟨rfl, hr, hreport⟩⟩
    · have hlate := hgap hb.2.1.ne'
      exact ⟨hb.armed hlate, hr.armed hlate⟩
  have htime (es : List Event) : drive (Clock.next c gap) k (.time f.now :: es) =
      drive (Clock.next c gap) { k with now := some f.now } es := rfl
  obtain ⟨b, hb, hkept, hcur, hlast⟩ := @beat_times c { r with currentTime := f.now } gap
    { k with now := some f.now } f rfl h0 harmed.1
  have hpcs := (@beat_part c { r with currentTime := f.now } f).pc
  unfold turn
  dsimp only at hcur hlast hpcs hb hkept ⊢
  generalize beat c { r with currentTime := f.now } f = x at hb hkept hcur hlast hpcs
  split_ifs with hfail hfail'
  · exact ⟨_, (htime _).trans hb, trivial⟩
  all_goals
    have hkept := hkept (by simpa using hfail)
    obtain ⟨d, hd, hkept', hcur', hlast'⟩ := @report_times c x.1 gap
      ⟨some f.now, b, k.report⟩ f (by rw [hcur]) (by rwa [hcur])
      (by rw [hcur, hlast]; exact harmed.2)
    have hpcs' := (@report_part c x.1 f).pc
  · refine ⟨⟨some f.now, b, d⟩, ?_, trivial⟩
    rw [htime, drive_append, hb]
    exact hd
  · have hkept' := hkept' (by simpa using hfail')
    rw [hcur] at hkept' hcur'
    refine ⟨⟨some f.now, b, d⟩, ?_, ?_⟩
    · rw [htime, drive_append, hb, Option.bind_some, drive_append, hd, Option.bind_some, drive_cons]
      simp only [Clock.next, hkept.recent, hkept'.recent, and_self, if_true]
      rfl
    · simp only [ClockFits, hpcs', hpcs, hpc]
      refine .inr ⟨by rw [hcur'], ?_, by rwa [hcur']⟩
      rw [hcur', hlast']
      exact hkept

/-- An event outside the turns. -/
def Untimed : Event → Prop
  | .time _ => False
  | .send _ package _ => cmdOf package ≠ TRACKER_PROTO_CMD_STORAGE_BEAT ∧
      cmdOf package ≠ TRACKER_PROTO_CMD_STORAGE_REPORT
  | _ => True

theorem drive_untimed {es : List Event} (h : ∀ e ∈ es, Untimed e) :
    drive (Clock.next c gap) {} es = some {} := by
  induction es with
  | nil => rfl
  | cons e es ih =>
    have hrest := ih fun x hx => h x (List.mem_cons_of_mem _ hx)
    have he := h e List.mem_cons_self
    have hnext : Clock.next c gap {} e = some {} := by
      cases e with
      | time now => exact he.elim
      | send fd package done => simp [Clock.next, he.1, he.2]
      | _ => rfl
    rw [drive_cons, hnext]
    exact hrest

section Quiet
variable (fd : ℤ) (done : Bool)

private theorem untimed_of_cmd {package : Bytes} {cmd : Byte} (h : cmdOf package = cmd)
    (hcmd : cmd ≠ TRACKER_PROTO_CMD_STORAGE_BEAT ∧ cmd ≠ TRACKER_PROTO_CMD_STORAGE_REPORT) :
    Untimed (.send fd package done) := by
  subst h
  exact hcmd

@[simp] theorem untimed_join : Untimed (.send fd (joinPackage c) done) :=
  untimed_of_cmd fd done (cmdOf_joinPackage c) (by decide)

@[simp] theorem untimed_quit (stack : ℕ → Byte) : Untimed (.send fd (quitPackage stack) done) :=
  untimed_of_cmd fd done (cmdOf_quitPackage stack) (by decide)

@[simp] theorem untimed_destReq : Untimed (.send fd syncDestRequest done) :=
  untimed_of_cmd fd done cmdOf_syncDestRequest (by decide)

@[simp] theorem untimed_resp : Untimed (.send fd syncDestConfirmation done) :=
  untimed_of_cmd fd done cmdOf_syncDestConfirmation (by decide)

@[simp] theorem untimed_notify (s : SyncSource) :
    Untimed (.send fd (syncNotifyPackage s) done) :=
  untimed_of_cmd fd done (cmdOf_syncNotifyPackage s) (by decide)

@[simp] theorem untimed_socket : Untimed (.socket fd) := trivial
@[simp] theorem untimed_connect : Untimed (.connect fd done) := trivial
@[simp] theorem untimed_insert (ip : Bytes) : Untimed (.insertIntoLocalHostIp ip) := trivial
@[simp] theorem untimed_recv : Untimed (.recv fd) := trivial
@[simp] theorem untimed_close : Untimed (.close fd) := trivial
@[simp] theorem untimed_lock : Untimed .lock := trivial
@[simp] theorem untimed_unlock : Untimed .unlock := trivial
@[simp] theorem untimed_sleep (secs : ℤ) : Untimed (.sleep secs) := trivial

end Quiet

theorem untimed_giveUp (f : Findings) : ∀ e ∈ (giveUp c r f).2, Untimed e := by simp [giveUp]

theorem untimed_exchange (sock : ℤ) (e : ExchangeErrnos) (inb : Inbound) (out : Outbound) :
    ∀ x ∈ exchangeEvents sock e inb out, Untimed x := by
  unfold exchangeEvents
  dsimp only
  split_ifs
  · simp
  · split <;> simp

/-- What a step outside the turns tells, and where it goes. -/
theorem step_untimed (f : Findings) (hpc : r.pc ≠ .turning) :
    (∀ e ∈ (reporterStep c r f).2, Untimed e) ∧ ((reporterStep c r f).1.pc = .turning →
      (reporterStep c r f).1.lastBeatTime = 0 ∧ (reporterStep c r f).1.lastReportTime = 0) := by
  have hgive (r : Reporter) : (giveUp c r f).1.pc ≠ .turning := by simp [giveUp]
  cases h : r.pc with
  | turning => exact absurd h hpc
  | starting => simp [reporterStep, h]
  | barrier =>
    simp only [reporterStep, h]
    split_ifs <;> simp [h]
  | connecting =>
    simp only [reporterStep, h]
    split_ifs <;> simp
  | opened =>
    simp only [reporterStep, h]
    cases f.connection <;> simp
  | joining =>
    simp only [reporterStep, h]
    split_ifs <;> simp
  | locking =>
    simp only [reporterStep, h]
    split_ifs
    · exact ⟨untimed_giveUp f, fun ht => absurd ht (hgive r)⟩
    · simp
  | checking =>
    simp only [reporterStep, h]
    split_ifs
    · simp
    · refine ⟨untimed_exchange _ _ _ _, ?_⟩
      rcases (trackerSyncDestReq f.exchange r.inbound r.outbound f.source).2.2.2 with _ | result
      · simp [Pc.behind]
      · rw [Pc.behind]
        split_ifs <;> simp
  | refused =>
    simp only [reporterStep, h]
    refine ⟨?_, fun ht => absurd ht (hgive r)⟩
    simpa using untimed_giveUp f
  | saving =>
    simp only [reporterStep, h]
    split_ifs <;> simp
  | unlocking => simp [reporterStep, h]
  | notifying =>
    simp only [reporterStep, h]
    split_ifs
    · simp
    · refine ⟨?_, fun ht => absurd ht (hgive _)⟩
      simpa using untimed_giveUp f
    · simp
  | leaving =>
    simp only [reporterStep, h]
    split_ifs <;> simp
  | counting =>
    simp only [reporterStep, h]
    split_ifs <;> simp
  | ended | dead => simp [reporterStep, h]

theorem clock_step {f : Findings} (hk : ClockFits c r k) (hf : Timely c gap r f) :
    Reads (Clock.next c gap) (ClockFits c) k (reporterStep c r f) := by
  by_cases hpc : r.pc = .turning
  · simp only [reporterStep, hpc]
    split_ifs with hflag
    · obtain ⟨hbeat, hreport, hgap⟩ := hf hpc hflag
      exact turn_times f hpc hk hbeat hreport hgap
    · exact ⟨k, rfl, trivial⟩
  obtain ⟨hquiet, hstart⟩ := @step_untimed c r f hpc
  have hfits : ClockFits c (reporterStep c r f).1 {} := by
    unfold ClockFits
    split
    · exact .inl ⟨rfl, hstart ‹_›⟩
    · trivial
    · rfl
  by_cases hpc' : r.pc = .leaving
  · refine ⟨{}, ?_, hfits⟩
    have hsend (done : Bool) (es : List Event) : drive (Clock.next c gap) k
        (.send r.sock (quitPackage f.stack) done :: es) = drive (Clock.next c gap) k es := by
      have hbeat : TRACKER_PROTO_CMD_STORAGE_QUIT ≠ TRACKER_PROTO_CMD_STORAGE_BEAT := by decide
      have hreport : TRACKER_PROTO_CMD_STORAGE_QUIT ≠ TRACKER_PROTO_CMD_STORAGE_REPORT := by decide
      simp [Clock.next, hbeat, hreport]
    simp only [reporterStep, hpc']
    split_ifs
    · rfl
    · rfl
    · exact hsend _ _
    · exact hsend _ _
  · have hempty : k = {} := by
      unfold ClockFits at hk
      split at hk
      · exact absurd ‹_› hpc
      · exact absurd ‹_› hpc'
      · exact hk
    rw [hempty]
    exact ⟨{}, drive_untimed hquiet, hfits⟩

end

end Times

section Runs

/-- A descriptor more or less. -/
def opening : Event → ℤ
  | .socket _ => 1
  | .close _ => -1
  | _ => 0

def Session.count : Session → ℤ
  | none => 0
  | some _ => 1

/-- The thread at its start has no connection, whatever its locals hold. -/
def atStart (r : Reporter) : Reporter :=
  { r with pc := .starting, inbound := ⟨[], []⟩, outbound := ⟨[], []⟩ }

theorem session_run (c : Reporting) (r : Reporter) (fs : List Findings) :
    ∃ a, drive Session.next none (trace (reporterStep c) (atStart r) fs) = some a ∧
      Fits (run (move (reporterStep c)) (atStart r) fs) a :=
  trace_accepted_always (fun _ f _ h => @reporterStep_reads c _ _ h f)
    (.inl ⟨rfl, rfl, .inl rfl⟩) fs

/-- The lock is given back on every way out of its section: it is held exactly between its
two ends, and neither a wait nor a new connection falls between them. -/
theorem lock_given_back (c : Reporting) (r : Reporter) {fs : List Findings}
    (h : Meets (move (reporterStep c)) LocksAtEnd (atStart r) fs) :
    drive lockNext false (trace (reporterStep c) (atStart r) fs) =
      some (run (move (reporterStep c)) (atStart r) fs).pc.holds := by
  have hstart : false = (atStart r).pc.holds := rfl
  obtain ⟨held, hheld, rfl⟩ := trace_accepted (fun _ _ _ h hf => lock_step h hf) hstart h
  exact hheld

/-- In every session heart beats and reports are sent each when it is due, the first turn
sends both, and the thread sleeps only when both have been sent within their intervals. -/
theorem messages_timely (c : Reporting) (gap : ℤ) (r : Reporter) {fs : List Findings}
    (h : Meets (move (reporterStep c)) (Timely c gap) (atStart r) fs) :
    ∃ k, drive (Clock.next c gap) {} (trace (reporterStep c) (atStart r) fs) = some k := by
  have hstart : ClockFits c (atStart r) {} := rfl
  obtain ⟨k, hk, -⟩ := trace_accepted (fun _ _ _ h hf => clock_step h hf) hstart h
  exact ⟨k, hk⟩

instance (r : Reporter) (f : Findings) : Decidable (LocksAtEnd r f) :=
  inferInstanceAs (Decidable (_ → _))

instance (c : Reporting) (gap : ℤ) (r : Reporter) (f : Findings) : Decidable (Timely c gap r f) :=
  inferInstanceAs (Decidable (_ → _ → _))

def sampleReporting : Reporting where
  cfg := sampleConfig
  serverPort := 23000
  heartBeatInterval := 30
  statReportInterval := 60
  heartBeat_pos := by decide
  statReport_pos := by decide

def sampleReporter : Reporter := ⟨.starting, 0, ⟨[], []⟩, ⟨[], []⟩, false, 0, 0, 0, 0⟩

/-- A negotiation, three turns and the end of the daemon. -/
def sampleFindings : List Findings :=
  [{ syncOldDone := false }, {}, {}, {}, {}, {}, {}, {}, {}, { now := 100 }, { now := 131 },
    { now := 162 }, { continueFlag := false }, { continueFlag := false, stillContinues := false },
    { continueFlag := false }, {}]

theorem lock_given_back_sample : drive lockNext false
    (trace (reporterStep sampleReporting) (atStart sampleReporter) sampleFindings) =
      some (run (move (reporterStep sampleReporting)) (atStart sampleReporter)
        sampleFindings).pc.holds :=
  lock_given_back sampleReporting sampleReporter (by decide +kernel)

theorem messages_timely_sample : ∃ k, drive (Clock.next sampleReporting 40) {}
    (trace (reporterStep sampleReporting) (atStart sampleReporter) sampleFindings) = some k :=
  messages_timely sampleReporting 40 sampleReporter (by decide +kernel)

example : (run (move (reporterStep sampleReporting)) (atStart sampleReporter)
    sampleFindings).pc = .ended := by decide +kernel

end Runs

end DemoStorage.ReporterSessions
