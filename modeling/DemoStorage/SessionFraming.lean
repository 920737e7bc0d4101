import DemoStorage.ReporterSessions
import DemoStorage.DelimitedStreams

/-!
# The stream of a session

The packages of a session have different lengths, and a tracker tells them apart by the
lengths in their headers alone. Every package declares what it carries, so that the stream of
a session whose packages were all delivered is cut into exactly these packages, and their
commands are the ones of a session.
-/

namespace DemoStorage.SessionFraming
open ByteStrings PosixFileTree SocketTransfers GeneratedNames DaemonState RequestHandlers
open ServiceThread TrackerProtocol WireContents ConditionedRuns TraceAcceptors
open DelimitedStreams ReporterSessions
open RequestDecoding (length_padField)
open HeartBeats (beatHeader beatPackage trackerHeartBeat)

/-- The length of the package at the front of a stream, as its header tells it. -/
def packageSize (s : Bytes) : ℕ :=
  if s.length < 11 then 11 else 11 + (decodeHeader s).nInPackLen.toNat

section Packages

theorem delimits_of_field {field body : Bytes} (cmd status : Byte) (hlen : field.length = 9)
    (hread : ∀ rest, (decodeHeader (field ++ rest)).nInPackLen = body.length) :
    Delimits packageSize (field ++ ([cmd, status] ++ body)) where
  ne := by simp
  size_eq rest := by
    have hlong : ¬ (field ++ ([cmd, status] ++ body) ++ rest).length < 11 := by
      simp [hlen]
      omega
    rw [packageSize, if_neg hlong, List.append_assoc, hread]
    simp [hlen]
    omega

/-- A package whose length was printed into its field. -/
theorem delimits_filled (stack : ℕ → Byte) (cmd status : Byte) {n : ℤ} {body : Bytes}
    (hn : n = body.length) (hmax : n ≤ INT_MAX) : Delimits packageSize (fillField
      TRACKER_PROTO_PKG_LEN_SIZE (hexadecimal n ++ [0]) stack ++ ([cmd, status] ++ body)) := by
  refine delimits_of_field cmd status (length_fillField _ _ _) fun rest => ?_
  rw [nInPackLen_fillField (by omega) hmax, hn]

/-- A cleared field is one the stack left cleared. -/
theorem padField_eq {text : Bytes} (h : text.length ≤ 8) :
    padField TRACKER_PROTO_PKG_LEN_SIZE text =
      fillField TRACKER_PROTO_PKG_LEN_SIZE (text ++ [0]) fun _ => 0 := by
  have htake : (text ++ [0]).take TRACKER_PROTO_PKG_LEN_SIZE = text ++ [0] := by
    apply List.take_of_length_le
    simp [TRACKER_PROTO_PKG_LEN_SIZE]
    omega
  obtain ⟨k, hk⟩ : ∃ k, TRACKER_PROTO_PKG_LEN_SIZE - text.length = k + 1 :=
    ⟨8 - text.length, by rw [TRACKER_PROTO_PKG_LEN_SIZE]; omega⟩
  have hrest : TRACKER_PROTO_PKG_LEN_SIZE - (text ++ [0]).length = k := by
    rw [List.length_append, List.length_singleton]
    omega
  rw [padField, fillField, htake, hk, hrest, List.replicate_succ, List.append_assoc,
    List.map_const', List.length_range]
  rfl

theorem delimits_padded (cmd : Byte) {n : ℤ} {body : Bytes} (hn : n = body.length)
    (hmax : n ≤ INT_MAX) : Delimits packageSize (requestHeader (hexadecimal n) cmd ++ body) := by
  rw [requestHeader, padField_eq (length_hexadecimal_le n), List.append_assoc]
  exact delimits_filled _ cmd 0 hn hmax

theorem delimits_join (c : Reporting) : Delimits packageSize (joinPackage c) := by
  rw [joinPackage, List.append_assoc]
  refine delimits_padded _ ?_ (by decide)
  have hname := c.cfg.groupName_length
  rw [List.length_append, length_padField, length_padField]
  · rfl
  · exact (length_hexadecimal_le _).trans (by decide)
  · rw [FDFS_GROUP_NAME_MAX_LEN] at hname ⊢
    omega

theorem delimits_quit (stack : ℕ → Byte) : Delimits packageSize (quitPackage stack) :=
  @delimits_filled stack _ 0 0 [] rfl (by decide)

theorem delimits_statReport (stack : ℕ → Byte) (totalMb freeMb : ℤ) :
    Delimits packageSize (statReportPackage stack totalMb freeMb) :=
  delimits_filled stack _ _ rfl (by decide)

theorem delimits_destRequest : Delimits packageSize syncDestRequest :=
  @delimits_of_field (padField 9 []) [] _ 0 rfl fun rest => by
    have hfield : (padField 9 [] ++ rest).take TRACKER_PROTO_PKG_LEN_SIZE = padField 9 [] :=
      List.take_left' rfl
    have hzero : wrap32 (strtol 16 ((padField 9 []).take 8 ++ [0])) = 0 := by decide
    rw [TrackerHeader.nInPackLen, decodeHeader, hfield]
    exact hzero

theorem delimits_confirmation : Delimits packageSize syncDestConfirmation :=
  @delimits_padded _ 0 [] rfl (by decide)

theorem delimits_syncNotify {s : SyncSource} (h : s.ipAddr.length ≤ FDFS_IPADDR_SIZE) :
    Delimits packageSize (syncNotifyPackage s) := by
  rw [syncNotifyPackage, List.append_assoc]
  refine delimits_padded _ ?_ (by decide)
  rw [List.length_append, length_padField h, length_padField]
  · rfl
  · exact (length_hexadecimal_le _).trans (by decide)

theorem delimits_beat (stack : ℕ → Byte) (a b : ℤ) (s : FDFSStorageStat) :
    Delimits packageSize (beatPackage stack a b s).1 := by
  unfold beatPackage
  split_ifs
  · rw [beatHeader, List.append_assoc]
    exact delimits_filled stack _ _ rfl (by simp [INT_MAX])
  · exact @delimits_filled stack _ 0 0 [] rfl (by decide)

end Packages

/-- What was delivered on the last connection, and whether every package was. -/
structure Wire where
  packages : List Bytes := []
  whole : Bool := true

def Wire.next (w : Wire) : Event → Wire
  | .socket _ | .connect _ true => {}
  | .send _ package done =>
    if done = false then { w with whole := false }
    else if w.whole then { w with packages := w.packages ++ [package] }
    else w
  | _ => w

def wire (es : List Event) : Wire := es.foldl Wire.next {}

/-- The packages a wire delivered are at the front of the stream; a wire that delivered them
all has sent nothing else. -/
structure Carries (out : Outbound) (w : Wire) : Prop where
  delimits : ∀ p ∈ w.packages, Delimits packageSize p
  front : w.packages.flatten <+: out.sent
  whole : w.whole = true → out.sent = w.packages.flatten

/-- Events that send delimited packages, and the connection before and behind them. -/
inductive Sends : Outbound → List Event → Outbound → Prop
  | nil (out : Outbound) : Sends out [] out
  | send {out out' : Outbound} {es : List Event} {p : Bytes} {done : Bool} (fd : ℤ) (errno : Errno)
      (hp : Delimits packageSize p) (hd : done = true ↔ (sendPackage errno out p).2 = 0)
      (h : Sends (sendPackage errno out p).1 es out') : Sends out (.send fd p done :: es) out'
  | other {out out' : Outbound} {es : List Event} {e : Event} (he : ∀ w, Wire.next w e = w)
      (h : Sends out es out') : Sends out (e :: es) out'

section Streams
variable {c : Reporting} {r : Reporter} {out mid out' : Outbound} {es fs : List Event} {w : Wire}

theorem carries_new (evs : List SendEvent) : Carries ⟨[], evs⟩ {} where
  delimits := by simp
  front := List.nil_prefix
  whole _ := rfl

/-- A package more. -/
theorem Carries.send {p : Bytes} {done : Bool} (h : Carries out w) (fd : ℤ) (errno : Errno)
    (hp : Delimits packageSize p) (hd : done = true ↔ (sendPackage errno out p).2 = 0) :
    Carries (sendPackage errno out p).1 (w.next (.send fd p done)) := by
  have hgrow : out.sent <+: (sendPackage errno out p).1.sent := List.prefix_append _ _
  cases done with
  | false => exact ⟨h.delimits, h.front.trans hgrow, by simp [Wire.next]⟩
  | true =>
    by_cases hwhole : w.whole = true
    · have hsent : (sendPackage errno out p).1.sent = out.sent ++ p :=
        sent_of_tcpsenddata (sendPackage_eq_zero.mp (hd.mp rfl))
      have hall : (sendPackage errno out p).1.sent = (w.packages ++ [p]).flatten := by
        rw [hsent, h.whole hwhole, List.flatten_append, List.flatten_singleton]
      have hnext : w.next (.send fd p true) = { w with packages := w.packages ++ [p] } := by
        simp [Wire.next, hwhole]
      rw [hnext]
      refine ⟨fun q hq => ?_, ?_, fun _ => hall⟩
      · rcases List.mem_append.mp hq with hq | hq
        · exact h.delimits q hq
        · rwa [List.mem_singleton.mp hq]
      · rw [hall]
    · have hnext : w.next (.send fd p true) = w := by simp [Wire.next, hwhole]
      rw [hnext]
      exact ⟨h.delimits, h.front.trans hgrow, fun ht => absurd ht hwhole⟩

theorem Sends.carries (h : Sends out es out') (hw : Carries out w) :
    Carries out' (es.foldl Wire.next w) := by
  induction h generalizing w with
  | nil => exact hw
  | send fd errno hp hd _ ih => exact ih (hw.send fd errno hp hd)
  | other he _ ih =>
    rw [List.foldl_cons, he]
    exact ih hw

theorem Sends.append (h : Sends out es mid) (h' : Sends mid fs out') :
    Sends out (es ++ fs) out' := by
  induction h with
  | nil => exact h'
  | send fd errno hp hd _ ih => exact .send fd errno hp hd (ih h')
  | other he _ ih => exact .other he (ih h')

theorem Sends.one {p : Bytes} {done : Bool} (fd : ℤ) (errno : Errno) (hp : Delimits packageSize p)
    (hd : done = true ↔ (sendPackage errno out p).2 = 0) :
    Sends out [.send fd p done] (sendPackage errno out p).1 := .send fd errno hp hd (.nil _)

/-- The global holds an address that fits its field. -/
def NamesSource (r : Reporter) (f : Findings) : Prop :=
  r.pc = .notifying → f.source.ipAddr.length ≤ FDFS_IPADDR_SIZE

theorem giveUp_sends (f : Findings) : Sends r.outbound (giveUp c r f).2 (giveUp c r f).1.outbound :=
  .send _ f.errno (delimits_quit f.stack) decide_eq_true_iff (.other (fun _ => rfl) (.nil _))

theorem exchange_sends (sock : ℤ) (e : ExchangeErrnos) (inb : Inbound) (out : Outbound)
    (g : SyncSource) :
    Sends out (exchangeEvents sock e inb out) (trackerSyncDestReq e inb out g).2.1 := by
  have hask := delimits_destRequest
  by_cases hq : (sendPackage e.request out syncDestRequest).2 = 0
  · cases ha : (recvSyncDest e.answer inb).2 with
    | failed | empty | fatal =>
      simp only [exchangeEvents, trackerSyncDestReq, hq, ha]
      exact .send _ e.request hask (by simp [hq]) (.other (fun _ => rfl) (.nil _))
    | source d =>
      simp only [exchangeEvents, trackerSyncDestReq, hq, ha]
      exact .send _ e.request hask (by simp [hq]) (.other (fun _ => rfl)
        (.one _ e.confirm delimits_confirmation decide_eq_true_iff))
  · simp only [exchangeEvents, trackerSyncDestReq, ne_eq, hq, not_false_eq_true, if_true]
    exact .one _ e.request hask (by simp [hq])

theorem beat_sends (f : Findings) : Sends r.outbound (beat c r f).2.1 (beat c r f).1.outbound := by
  have hp := delimits_beat f.stack r.statChgSyncCount f.statChangeCount f.stat
  unfold beat
  split_ifs with hdue
  · dsimp only
    split_ifs with hfail
    · exact .one _ f.errno hp (iff_of_false Bool.false_ne_true hfail)
    · exact .one _ f.errno hp (iff_of_true rfl (not_not.mp hfail))
  · exact .nil _

theorem report_sends (f : Findings) :
    Sends r.outbound (report c r f).2.1 (report c r f).1.outbound := by
  unfold report
  split_ifs with hdue
  · cases f.sizes with
    | none =>
      dsimp only
      split_ifs <;> exact .nil _
    | some sizes =>
      have hp := delimits_statReport f.stack sizes.1 sizes.2
      dsimp only
      split_ifs <;> exact .one _ f.errno hp decide_eq_true_iff
  · exact .nil _

theorem turn_sends (f : Findings) : Sends r.outbound (turn c r f).2 (turn c r f).1.outbound := by
  have hbeat := @beat_sends c { r with currentTime := f.now } f
  have hreport := @report_sends c (beat c { r with currentTime := f.now } f).1 f
  unfold turn
  dsimp only at hbeat ⊢
  split_ifs
  · exact .other (fun _ => rfl) hbeat
  · exact .other (fun _ => rfl) (hbeat.append hreport)
  · exact .other (fun _ => rfl)
      (hbeat.append (hreport.append (.other (fun _ => rfl) (.nil _))))

theorem reporterStep_carries {f : Findings} (h : Carries r.outbound w) (hf : NamesSource r f) :
    Carries (reporterStep c r f).1.outbound ((reporterStep c r f).2.foldl Wire.next w) := by
  cases hpc : r.pc with
  | starting =>
    simp only [reporterStep, hpc]
    exact h
  | barrier =>
    simp only [reporterStep, hpc]
    split_ifs <;> exact h
  | connecting =>
    simp only [reporterStep, hpc]
    split_ifs
    · exact h
    · exact h
    · exact h
    · exact carries_new []
    · exact carries_new []
  | opened =>
    simp only [reporterStep, hpc]
    cases f.connection with
    | none => exact h
    | some x => exact carries_new x.2
  | joining =>
    have hjoin := delimits_join c
    simp only [reporterStep, hpc]
    split_ifs with hfail hd
    · exact h.send r.sock f.errno hjoin (iff_of_false Bool.false_ne_true hfail)
    · exact h.send r.sock f.errno hjoin (iff_of_true rfl (not_not.mp hfail))
    · exact h.send r.sock f.errno hjoin (iff_of_true rfl (not_not.mp hfail))
  | locking =>
    simp only [reporterStep, hpc]
    split_ifs
    · exact (giveUp_sends f).carries h
    · exact h
  | checking =>
    simp only [reporterStep, hpc]
    split_ifs
    · exact h
    · exact (exchange_sends _ _ _ _ _).carries h
  | refused =>
    simp only [reporterStep, hpc]
    exact (giveUp_sends f).carries h
  | saving =>
    simp only [reporterStep, hpc]
    split_ifs <;> exact h
  | unlocking =>
    simp only [reporterStep, hpc]
    exact h
  | notifying =>
    have hname := delimits_syncNotify (hf hpc)
    simp only [reporterStep, hpc]
    split_ifs with hnone hfail
    · exact h
    · exact (giveUp_sends f).carries
        (h.send r.sock f.errno hname (iff_of_false Bool.false_ne_true hfail))
    · exact h.send r.sock f.errno hname (iff_of_true rfl (not_not.mp hfail))
  | turning =>
    simp only [reporterStep, hpc]
    split_ifs
    · exact (turn_sends f).carries h
    · exact h
  | leaving =>
    have hquit := delimits_quit f.stack
    simp only [reporterStep, hpc]
    split_ifs
    · exact h
    · exact h
    · exact h.send r.sock f.errno hquit decide_eq_true_iff
    · exact h.send r.sock f.errno hquit decide_eq_true_iff
  | counting =>
    simp only [reporterStep, hpc]
    split_ifs <;> exact h
  | ended | dead =>
    simp only [reporterStep, hpc]
    exact h

end Streams

section Words

/-- The stage behind what the tracker may have answered. -/
def heard (s : Stage) : Stage := if s = .asked then .answered else s

/-- A command more on the stream of a session whose packages are all delivered. What the
tracker answers and the times between are not on it. -/
def said (s : Stage) (cmd : Byte) : Option Stage :=
  if cmd = TRACKER_PROTO_CMD_STORAGE_BEAT ∨ cmd = TRACKER_PROTO_CMD_STORAGE_REPORT then
    if (heard s).ready then some .beating else none
  else (heard s).send cmd true

/-- Nothing may be sent. -/
def silent : Stage → Bool
  | .opened | .over | .left => true
  | _ => false

/-- The stage the stream shows, and the one the session has. -/
def Shows (t s : Stage) : Prop :=
  t = s ∨ heard t = s ∨ (heard t).ready = true ∧ s = .beating

/-- What a package that is delivered asks of the stage, and what it makes of it. -/
theorem send_cases {s s' : Stage} {cmd : Byte} (h : s.send cmd true = some s') :
    cmd = TRACKER_PROTO_CMD_STORAGE_JOIN ∧ s = .connected ∧ s' = .joined ∨
    cmd = TRACKER_PROTO_CMD_STORAGE_SYNC_DEST_REQ ∧ s = .joined ∧ s' = .asked ∨
    cmd = TRACKER_PROTO_CMD_STORAGE_RESP ∧ s = .answered ∧ s' = .confirmed ∨
    cmd = TRACKER_PROTO_CMD_STORAGE_SYNC_NOTIFY ∧ s.settled = true ∧ s' = .notified ∨
    (cmd = TRACKER_PROTO_CMD_STORAGE_BEAT ∨ cmd = TRACKER_PROTO_CMD_STORAGE_REPORT) ∧
      s = .beating ∧ s' = .beating ∨
    cmd = TRACKER_PROTO_CMD_STORAGE_QUIT ∧ s.mayQuit = true ∧ silent s' = true := by
  unfold Stage.send at h
  split_ifs at h <;> first | (simp_all; done) | (obtain rfl := Option.some.inj h; simp_all [silent])

section
variable {s t s' : Stage}

theorem Shows.heard_eq (h : Shows t s) (hs : s ≠ .asked) :
    heard t = s ∨ (heard t).ready = true ∧ s = .beating := by
  obtain rfl | h := h
  · exact .inl (if_neg hs)
  · exact h

theorem Shows.settled (h : Shows t s) (hs : s.settled = true) : (heard t).settled = true := by
  obtain rfl | ⟨-, rfl⟩ := h.heard_eq (by rintro rfl; cases hs)
  · exact hs
  · cases hs

theorem Shows.mayQuit (h : Shows t s) (hs : s.mayQuit = true) : (heard t).mayQuit = true := by
  obtain rfl | ⟨hready, -⟩ := h.heard_eq (by rintro rfl; cases hs)
  · exact hs
  · cases ht : heard t <;> rw [ht] at hready <;> first | rfl | cases hready

theorem Shows.ready (h : Shows t s) (hs : s.ready = true) : (heard t).ready = true := by
  obtain rfl | ⟨hready, -⟩ := h.heard_eq (by rintro rfl; cases hs)
  · exact hs
  · exact hready

/-- The tracker answers a request. -/
theorem Shows.answered (h : Shows t .asked) : Shows t .answered := by
  cases t <;> simp_all [Shows, SessionFraming.heard]

theorem said_of_send {cmd : Byte} (h : Shows t s) (hs : s.send cmd true = some s') :
    ∃ t', said t cmd = some t' ∧ (silent s' = true ∨ Shows t' s') := by
  have hsame (hsaid : said t cmd = some s') :
      ∃ t', said t cmd = some t' ∧ (silent s' = true ∨ Shows t' s') := ⟨s', hsaid, .inr (.inl rfl)⟩
  have hplain (hcmd : ¬ (cmd = TRACKER_PROTO_CMD_STORAGE_BEAT ∨
      cmd = TRACKER_PROTO_CMD_STORAGE_REPORT)) (ht : heard t = s ∨ (heard t).ready = true ∧
      s = .beating) (hs' : s ≠ .beating) : said t cmd = some s' := by
    rw [said, if_neg hcmd, ht.resolve_right fun hb => hs' hb.2]
    exact hs
  obtain ⟨rfl, rfl, rfl⟩ | ⟨rfl, rfl, rfl⟩ | ⟨rfl, rfl, rfl⟩ | ⟨rfl, hset, rfl⟩ |
    ⟨hcmd, rfl, rfl⟩ | ⟨rfl, hquit, hsilent⟩ := send_cases hs
  · exact hsame (hplain (by decide) (h.heard_eq (by decide)) (by decide))
  · exact hsame (hplain (by decide) (h.heard_eq (by decide)) (by decide))
  · exact hsame (hplain (by decide) (h.heard_eq (by decide)) (by decide))
  · exact hsame (send_notify true (h.settled hset))
  · exact hsame ((if_pos hcmd).trans (if_pos (h.ready rfl)))
  · exact ⟨_, send_quit true (h.mayQuit hquit), .inl hsilent⟩

/-- The stream of a session shows how far the session has come. -/
def Tells (a : Session) (w : Wire) : Prop :=
  w.whole = true → ∃ t, drive said .connected (w.packages.map cmdOf) = some t ∧
    ∀ fd s, a = some (fd, s) → silent s = true ∨ Shows t s

theorem tells_new (fd : ℤ) (hs : s = .opened ∨ s = .connected) : Tells (some (fd, s)) {} := by
  refine fun _ => ⟨.connected, rfl, ?_⟩
  rintro _ _ ⟨⟩
  rcases hs with rfl | rfl
  · exact .inl rfl
  · exact .inr (.inl rfl)

/-- The session moves on, and nothing is sent. -/
theorem Tells.move {fd : ℤ} {a b : Session} {w : Wire} (h : Tells a w) (ha : a = some (fd, s))
    (hs : ∀ t, silent s = true ∨ Shows t s →
      ∀ fd' s', b = some (fd', s') → silent s' = true ∨ Shows t s') : Tells b w := by
  intro hwhole
  obtain ⟨t, ht, hshow⟩ := h hwhole
  exact ⟨t, ht, hs t (hshow fd s ha)⟩

theorem Tells.send {fd : ℤ} {p : Bytes} {done : Bool} {w : Wire} (h : Tells (some (fd, s)) w)
    (hs : s.send (cmdOf p) done = some s') : Tells (some (fd, s')) (w.next (.send fd p done)) := by
  cases done with
  | false => simp [Tells, Wire.next]
  | true =>
    intro hwhole
    have hw : w.whole = true := by
      by_contra hw
      simp [Wire.next, hw] at hwhole
    have hnext : w.next (.send fd p true) = { w with packages := w.packages ++ [p] } := by
      simp [Wire.next, hw]
    obtain ⟨t, ht, hshow⟩ := h hw
    have hshow : Shows t s := by
      refine (hshow fd s rfl).resolve_left fun hsilent => ?_
      cases s <;> first
        | (cases hsilent; done)
        | simp [Stage.send, Stage.settled, Stage.mayQuit, Stage.ready] at hs
    obtain ⟨t', ht', hshow'⟩ := said_of_send hshow hs
    refine ⟨t', ?_, ?_⟩
    · rw [hnext, List.map_append, drive_append, ht]
      simpa using ht'
    · rintro _ _ ⟨⟩
      exact hshow'

theorem next_tells {a b : Session} {w : Wire} {e : Event} (hn : Session.next a e = some b)
    (h : Tells a w) : Tells b (w.next e) := by
  obtain _ | ⟨fd, s⟩ := a
  · cases e with
    | socket fd =>
      cases hn
      exact tells_new fd (.inl rfl)
    | _ => cases hn <;> exact h
  cases e with
  | socket fd' => cases s <;> cases hn
  | connect fd' done =>
    simp only [Session.next] at hn
    split_ifs at hn
    cases s <;> cases hn
    cases done with
    | true => exact tells_new fd (.inr rfl)
    | false =>
      refine h.move rfl ?_
      rintro t - _ _ ⟨⟩
      exact .inl rfl
  | insertIntoLocalHostIp ip =>
    cases s <;> cases hn
    exact h
  | send fd' p done =>
    simp only [Session.next] at hn
    split_ifs at hn with hfd
    subst hfd
    rw [show Stage.next s (.send fd' p done) = s.send (cmdOf p) done by cases s <;> rfl] at hn
    obtain ⟨s', hs, rfl⟩ := Option.map_eq_some_iff.mp hn
    exact h.send hs
  | recv fd' =>
    simp only [Session.next] at hn
    split_ifs at hn
    cases s <;> cases hn
    refine h.move rfl ?_
    rintro t (ht | ht) _ _ ⟨⟩
    · cases ht
    · exact .inr ht.answered
  | close fd' =>
    simp only [Session.next] at hn
    split_ifs at hn
    cases hn
    exact h.move rfl (by rintro t - _ _ ⟨⟩)
  | lock =>
    obtain rfl := Option.some.inj ((next_lock _).symm.trans hn)
    exact h
  | unlock =>
    obtain rfl := Option.some.inj ((next_unlock _).symm.trans hn)
    exact h
  | time now =>
    simp only [Session.next, Stage.next] at hn
    split_ifs at hn with hready
    · cases hn
      refine h.move rfl ?_
      rintro t (hsilent | ht) _ _ ⟨⟩
      · cases s <;> first | (cases hsilent; done) | cases hready
      · exact .inr (.inr (.inr ⟨ht.ready hready, rfl⟩))
    · cases hn
  | sleep secs =>
    obtain rfl := Option.some.inj ((next_sleep _ secs).symm.trans hn)
    exact h

theorem drive_tells {a b : Session} {w : Wire} {es : List Event}
    (hd : drive Session.next a es = some b) (h : Tells a w) : Tells b (es.foldl Wire.next w) := by
  induction es generalizing a w with
  | nil =>
    obtain rfl := Option.some.inj hd
    exact h
  | cons e es ih =>
    obtain ⟨a', hn, hd⟩ := Option.bind_eq_some_iff.mp hd
    exact ih hd (next_tells hn h)

end

end Words

section Runs

theorem run_carries {c : Reporting} {r : Reporter} {w : Wire} {fs : List Findings}
    (h : Carries r.outbound w) (hf : Meets (move (reporterStep c)) NamesSource r fs) :
    Carries (run (move (reporterStep c)) r fs).outbound
      ((trace (reporterStep c) r fs).foldl Wire.next w) := by
  induction fs generalizing r w with
  | nil => exact h
  | cons f fs ih =>
    rw [trace, List.foldl_append]
    exact ih (reporterStep_carries h hf.1) hf.2

/-- At every point of a run the last connection carries, at its front, the packages that were
delivered on it, and a tracker that goes by their headers cuts the stream into them. While
none has failed these are all it finds, and their commands are those of a session. -/
theorem stream_in_step (c : Reporting) (r : Reporter) {fs : List Findings}
    (h : Meets (move (reporterStep c)) NamesSource (atStart r) fs) :
    let w := wire (trace (reporterStep c) (atStart r) fs)
    let found := pieces packageSize (run (move (reporterStep c)) (atStart r) fs).outbound.sent
    w.packages <+: found ∧ (w.whole = true → found = w.packages ∧
      ∃ t, drive said .connected (found.map cmdOf) = some t) := by
  intro w found
  have hc : Carries (run (move (reporterStep c)) (atStart r) fs).outbound w :=
    run_carries (carries_new []) h
  refine ⟨flatten_pieces hc.delimits hc.front, fun hwhole => ?_⟩
  have hfound : found = w.packages := by
    have hall := pieces_flatten hc.delimits (.inl rfl : Incomplete packageSize [])
    rwa [List.append_nil, ← hc.whole hwhole] at hall
  obtain ⟨a, ha, -⟩ := session_run c r fs
  have htells : Tells none {} := fun _ => ⟨.connected, rfl, by simp⟩
  obtain ⟨t, ht, -⟩ := drive_tells ha htells hwhole
  exact ⟨hfound, t, by rw [hfound]; exact ht⟩

instance (r : Reporter) (f : Findings) : Decidable (NamesSource r f) :=
  inferInstanceAs (Decidable (_ → _))

theorem stream_in_step_sample :
    let w := wire (trace (reporterStep sampleReporting) (atStart sampleReporter) sampleFindings)
    let found := pieces packageSize (run (move (reporterStep sampleReporting))
      (atStart sampleReporter) sampleFindings).outbound.sent
    w.packages <+: found ∧ (w.whole = true → found = w.packages ∧
      ∃ t, drive said .connected (found.map cmdOf) = some t) :=
  stream_in_step sampleReporting sampleReporter (by decide +kernel)

end Runs

end DemoStorage.SessionFraming
