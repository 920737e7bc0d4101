import DemoStorage.TrackerProtocol
import DemoStorage.StatisticsSessions
import DemoStorage.ConditionedRuns

/-!
# Heart beats

A reporter keeps the value the change counter had when it last built a body, and sends an
empty heart beat while the counter still has that value. The mark moves before the package
is sent, and a reporter that has to connect again keeps it. The barrier at the start of a
reporter is left out: without it there are more interleavings, not fewer.
-/

namespace DemoStorage.HeartBeats
open ByteStrings PosixFileTree SocketTransfers GeneratedNames DaemonState RequestHandlers
open ServiceThread TrackerProtocol StatisticsSessions ConditionedRuns

/-- `FDFSStorageStatBuff`. -/
def statBuff (s : FDFSStorageStat) : Bytes :=
  [s.totalUploadCount, s.successUploadCount, s.totalSetMetaCount, s.successSetMetaCount,
    s.totalDeleteCount, s.successDeleteCount, s.totalDownloadCount, s.successDownloadCount,
    s.totalGetMetaCount, s.successGetMetaCount, s.lastSourceUpdate,
    s.lastSyncUpdate].flatMap int2buff

/-- The header of a heart beat; what is behind the length's NUL is what the stack held. -/
def beatHeader (stack : ℕ → Byte) (bodyLen : ℤ) : Bytes :=
  fillField TRACKER_PROTO_PKG_LEN_SIZE (hexadecimal bodyLen ++ [0]) stack ++
    [TRACKER_PROTO_CMD_STORAGE_BEAT, 0]

/-- The package and the new `*pstat_chg_sync_count`. -/
def beatPackage (stack : ℕ → Byte) (statChgSyncCount statChangeCount : ℤ) (s : FDFSStorageStat) :
    Bytes × ℤ :=
  if statChgSyncCount ≠ statChangeCount then
    (beatHeader stack (statBuff s).length ++ statBuff s, statChangeCount)
  else (beatHeader stack 0, statChgSyncCount)

/-- `tracker_check_response` is an unfinished stub in the source: it receives nothing and
returns 0. -/
def trackerHeartBeat (stack : ℕ → Byte) (errno : Errno) (out : Outbound)
    (statChgSyncCount statChangeCount : ℤ) (s : FDFSStorageStat) : Outbound × ℤ × Errno :=
  let p := beatPackage stack statChgSyncCount statChangeCount s
  let r := sendPackage errno out p.1
  (r.1, p.2, r.2)

/-- The body of a package as the tracker reads it. -/
def readBody (package : Bytes) : Bytes :=
  (package.drop sizeofHeader.toNat).take (decodeHeader package).nInPackLen.toNat

@[simp] theorem length_statBuff (s : FDFSStorageStat) : (statBuff s).length = 48 := rfl

private theorem byte_inj {a b : ℤ}
    (h : UInt8.ofNat (a % 256).toNat = UInt8.ofNat (b % 256).toNat) : a % 256 = b % 256 := by
  have hn := congrArg UInt8.toNat h
  simp only [UInt8.toNat_ofNat'] at hn
  omega

theorem wrap32_of_int2buff {a b : ℤ} (h : int2buff a = int2buff b) : wrap32 a = wrap32 b := by
  simp only [int2buff, List.map_cons, List.map_nil, List.cons.injEq, and_true] at h
  obtain ⟨h1, h2, h3, h4⟩ := h
  have h1 := byte_inj h1
  have h2 := byte_inj h2
  have h3 := byte_inj h3
  have h4 := byte_inj h4
  rw [wrap32_eq_wrap32]
  omega

/-- The body tells every counter. -/
theorem counters_of_statBuff {s t : FDFSStorageStat} (h : statBuff s = statBuff t) (k : Kind) :
    wrap32 (k.total s) = wrap32 (k.total t) ∧ wrap32 (k.success s) = wrap32 (k.success t) := by
  simp only [statBuff, List.flatMap_cons] at h
  obtain ⟨h1, h⟩ := List.append_inj h rfl
  obtain ⟨h2, h⟩ := List.append_inj h rfl
  obtain ⟨h3, h⟩ := List.append_inj h rfl
  obtain ⟨h4, h⟩ := List.append_inj h rfl
  obtain ⟨h5, h⟩ := List.append_inj h rfl
  obtain ⟨h6, h⟩ := List.append_inj h rfl
  obtain ⟨h7, h⟩ := List.append_inj h rfl
  obtain ⟨h8, h⟩ := List.append_inj h rfl
  obtain ⟨h9, h⟩ := List.append_inj h rfl
  obtain ⟨h10, -⟩ := List.append_inj h rfl
  cases k with
  | upload => exact ⟨wrap32_of_int2buff h1, wrap32_of_int2buff h2⟩
  | setMetadata => exact ⟨wrap32_of_int2buff h3, wrap32_of_int2buff h4⟩
  | delete => exact ⟨wrap32_of_int2buff h5, wrap32_of_int2buff h6⟩
  | download => exact ⟨wrap32_of_int2buff h7, wrap32_of_int2buff h8⟩
  | getMetadata => exact ⟨wrap32_of_int2buff h9, wrap32_of_int2buff h10⟩

theorem length_beatHeader (stack : ℕ → Byte) (n : ℤ) : (beatHeader stack n).length = 11 := by
  rw [beatHeader, List.length_append, length_fillField]
  rfl

/-- The tracker reads the body the reporter built. -/
theorem readBody_beat (stack : ℕ → Byte) {body : Bytes} (h : (body.length : ℤ) ≤ INT_MAX) :
    readBody (beatHeader stack body.length ++ body) = body := by
  have hn : (decodeHeader (beatHeader stack body.length ++ body)).nInPackLen = body.length := by
    rw [beatHeader, List.append_assoc]
    exact nInPackLen_fillField (Int.natCast_nonneg _) h stack _
  have hdrop : (beatHeader stack body.length ++ body).drop sizeofHeader.toNat = body := by
    apply List.drop_left'
    rw [length_beatHeader]
    rfl
  rw [readBody, hdrop, hn, Int.toNat_natCast, List.take_length]

/-- The last two fields are ghosts: the body the tracker received last, and whether a
statistic was updated behind which neither the change counter was advanced nor a body built
for this tracker. -/
structure Reporter where
  connected : Bool
  statChgSyncCount : ℤ
  received : Option Bytes
  unannounced : Bool

structure State (κ : Type) where
  daemon : Daemon
  reporter : κ → Reporter

/-- What a heart beat finds: the stack, the connection, and whether it stays intact until
the tracker has read what was sent. -/
structure BeatFindings where
  stack : ℕ → Byte := fun _ => 0
  errno : Errno := 0
  events : List SendEvent := []
  intact : Bool := true

inductive Action (κ : Type) where
  | accept
  | session (i : ℕ) (f : Findings)
  | connect (r : κ)
  | beat (r : κ) (f : BeatFindings)

/-- The statistics as they were loaded. -/
def initial (κ : Type) (s : FDFSStorageStat) : State κ where
  daemon := ⟨{ World.initial .empty [] with stat := s }, []⟩
  reporter _ := ⟨false, 0, none, false⟩

section System
variable {κ : Type} [DecidableEq κ]

/-- The heart beat of a reporter. -/
def beatOf (s : State κ) (r : κ) (f : BeatFindings) : Outbound × ℤ × Errno :=
  trackerHeartBeat f.stack f.errno ⟨[], f.events⟩ (s.reporter r).statChgSyncCount
    s.daemon.world.statChangeCount s.daemon.world.stat

/-- The heart beat reaches the tracker. -/
def Delivered (s : State κ) (r : κ) (f : BeatFindings) : Prop :=
  (s.reporter r).connected = true ∧ (beatOf s r f).2.2 = 0 ∧ f.intact = true

instance (s : State κ) (r : κ) (f : BeatFindings) : Decidable (Delivered s r f) :=
  inferInstanceAs (Decidable (_ ∧ _ ∧ _))

/-- The heart beat finds the change counter as the reporter left it. -/
def Unchanged (s : State κ) (r : κ) : Prop :=
  (s.reporter r).statChgSyncCount = s.daemon.world.statChangeCount

instance (s : State κ) (r : κ) : Decidable (Unchanged s r) := inferInstanceAs (Decidable (_ = _))

def beat (s : State κ) (r : κ) (f : BeatFindings) : Reporter :=
  let b := beatOf s r f
  let body := readBody b.1.sent
  { connected := decide (b.2.2 = 0)
    statChgSyncCount := b.2.1
    received := if Delivered s r f ∧ body ≠ [] then some body else (s.reporter r).received
    unannounced := decide (Unchanged s r) && (s.reporter r).unannounced }

def step (s : State κ) : Action κ → State κ
  | .accept => { s with daemon := s.daemon.accept }
  | .session i f =>
    let d := s.daemon.session i f
    { daemon := d
      reporter := fun r => { s.reporter r with
        unannounced :=
          decide (d.world.statChangeCount = s.daemon.world.statChangeCount) &&
            ((s.reporter r).unannounced || decide (d.world.stat ≠ s.daemon.world.stat)) } }
  | .connect r => { s with
      reporter := Function.update s.reporter r { s.reporter r with connected := true } }
  | .beat r f =>
    if (s.reporter r).connected then
      { s with reporter := Function.update s.reporter r (beat s r f) }
    else s

/-- A body that was built reaches the tracker; an empty heart beat that reaches it stands for
statistics that were announced; and the change counter does not come round to a mark. -/
def Announced (s : State κ) : Action κ → Prop
  | .accept => True
  | .session i _ => s.daemon.sessions[i]? = some .stamped →
      ∀ r, (s.reporter r).statChgSyncCount ≠ wrap32 (s.daemon.world.statChangeCount + 1)
  | .connect _ => True
  | .beat r f => (s.reporter r).connected = true →
      if Unchanged s r then Delivered s r f → (s.reporter r).unannounced = false
      else Delivered s r f

/-- Behind a heart beat that is delivered the tracker has the statistics as they are, and it
has them already when the body is empty. -/
def Current (s : State κ) (a : Action κ) : Prop :=
  ∀ r f, a = .beat r f → Delivered s r f →
    ((step s a).reporter r).received = some (statBuff s.daemon.world.stat) ∧
      (readBody (beatOf s r f).1.sent = [] →
        (s.reporter r).received = some (statBuff s.daemon.world.stat))

/-- A mark at which the counter stands is that of a body the tracker has. -/
def Inv (s : State κ) : Prop :=
  ∀ r, Unchanged s r → (s.reporter r).unannounced = false →
    (s.reporter r).received = some (statBuff s.daemon.world.stat)

omit [DecidableEq κ] in
theorem inv_initial (stat : FDFSStorageStat) : Inv (initial κ stat) := by
  intro r hr
  have h : (0 : ℤ) = 1 := hr
  cases h

variable {s : State κ} {r : κ} {f : BeatFindings}

omit [DecidableEq κ] in
/-- A heart beat carries the body of its package. -/
theorem beatOf_eq {body : Bytes} {count : ℤ} (hlen : (body.length : ℤ) ≤ INT_MAX)
    (hp : beatPackage f.stack (s.reporter r).statChgSyncCount s.daemon.world.statChangeCount
      s.daemon.world.stat = (beatHeader f.stack body.length ++ body, count)) :
    (beatOf s r f).2.1 = count ∧ ((beatOf s r f).2.2 = 0 → readBody (beatOf s r f).1.sent = body) := by
  constructor
  · simp only [beatOf, trackerHeartBeat, hp]
  · intro h0
    have hsend := sendPackage_eq_zero.mp h0
    have hsent := sent_of_tcpsenddata hsend
    rw [hp] at hsent
    have hread := readBody_beat f.stack hlen
    simp only [beatOf, trackerHeartBeat, sendPackage, hp] at hsent ⊢
    rw [hsent, List.nil_append, hread]

omit [DecidableEq κ] in
/-- A heart beat with a body. -/
theorem beatOf_changed (h : ¬ Unchanged s r) : (beatOf s r f).2.1 = s.daemon.world.statChangeCount ∧
    ((beatOf s r f).2.2 = 0 → readBody (beatOf s r f).1.sent = statBuff s.daemon.world.stat) := by
  refine beatOf_eq ?_ (if_pos h)
  rw [length_statBuff]
  decide

omit [DecidableEq κ] in
/-- An empty heart beat. -/
theorem beatOf_unchanged (h : Unchanged s r) :
    (beatOf s r f).2.1 = (s.reporter r).statChgSyncCount ∧
      ((beatOf s r f).2.2 = 0 → readBody (beatOf s r f).1.sent = []) := by
  refine beatOf_eq (by decide) ?_
  rw [List.append_nil]
  exact if_neg (not_not.mpr h)

theorem statBuff_ne_nil (t : FDFSStorageStat) : statBuff t ≠ [] := by
  intro h
  have := length_statBuff t
  rw [h] at this
  cases this

omit [DecidableEq κ] in
theorem beat_changed (h : ¬ Unchanged s r) (hd : Delivered s r f) :
    (beat s r f).received = some (statBuff s.daemon.world.stat) ∧
      (beat s r f).unannounced = false := by
  have hbody := (beatOf_changed (f := f) h).2 hd.2.1
  simp [beat, hbody, hd, statBuff_ne_nil, h]

omit [DecidableEq κ] in
theorem beat_unchanged (h : Unchanged s r) :
    (beat s r f).received = (s.reporter r).received ∧
      (beat s r f).unannounced = (s.reporter r).unannounced := by
  have hbody := (beatOf_unchanged (f := f) h).2
  have hcond : ¬ (Delivered s r f ∧ readBody (beatOf s r f).1.sent ≠ []) :=
    fun hd => hd.2 (hbody hd.1.2.1)
  constructor
  · simp only [beat]
    exact if_neg hcond
  · simp [beat, h]

theorem Inv.beat (h : Inv s) (ha : Announced s (.beat r f)) :
    Current s (.beat r f) ∧ Inv (step s (.beat r f)) := by
  by_cases hc : (s.reporter r).connected = true
  · have hstep : step s (.beat r f) =
        { s with reporter := Function.update s.reporter r (HeartBeats.beat s r f) } := by
      simp only [step, hc, if_true]
    have hself : ((step s (.beat r f)).reporter r) = HeartBeats.beat s r f := by simp [hstep]
    have hother (q : κ) (hq : q ≠ r) : (step s (.beat r f)).reporter q = s.reporter q := by
      simp [hstep, hq]
    have hworld : (step s (.beat r f)).daemon = s.daemon := by rw [hstep]
    have ha := ha hc
    -- what the reporter of the heart beat has to show
    suffices hr : (Delivered s r f → (HeartBeats.beat s r f).received =
        some (statBuff s.daemon.world.stat) ∧ (readBody (beatOf s r f).1.sent = [] →
          (s.reporter r).received = some (statBuff s.daemon.world.stat))) ∧
        ((HeartBeats.beat s r f).unannounced = false →
          (HeartBeats.beat s r f).received = some (statBuff s.daemon.world.stat)) by
      constructor
      · rintro q g hq hd
        cases hq
        rw [hself]
        exact hr.1 hd
      · intro q hq
        rw [Unchanged, hworld] at hq
        rw [hworld]
        by_cases hqr : q = r
        · subst hqr
          rw [hself]
          exact hr.2
        · rw [hother q hqr] at hq ⊢
          exact h q hq
    by_cases hu : Unchanged s r
    · rw [if_pos hu] at ha
      obtain ⟨hrec, hann⟩ := beat_unchanged (f := f) hu
      rw [hrec, hann]
      exact ⟨fun hd => ⟨h r hu (ha hd), fun _ => h r hu (ha hd)⟩, h r hu⟩
    · rw [if_neg hu] at ha
      obtain ⟨hrec, -⟩ := beat_changed hu ha
      have hbody := (beatOf_changed (f := f) hu).2 ha.2.1
      rw [hrec, hbody]
      exact ⟨fun _ => ⟨rfl, fun he => absurd he (statBuff_ne_nil _)⟩, fun _ => rfl⟩
  · have hstep : step s (.beat r f) = s := by simp only [step, hc, Bool.false_eq_true, if_false]
    rw [hstep]
    refine ⟨?_, h⟩
    rintro q g hq hd
    cases hq
    exact absurd hd.1 hc

omit [DecidableEq κ] in
/-- A step of a session changes statistics, or advances the counter, or does neither. -/
theorem session_world (d : Daemon) (i : ℕ) (f : Findings) :
    (d.session i f).world.statChangeCount = d.world.statChangeCount ∨
      d.sessions[i]? = some .stamped ∧ (d.session i f).world.stat = d.world.stat ∧
        (d.session i f).world.statChangeCount = wrap32 (d.world.statChangeCount + 1) := by
  unfold Daemon.session
  cases hpc : d.sessions[i]? with
  | none => exact .inl rfl
  | some pc =>
    rcases sessionMove_changeCount d.world f pc with hc | ⟨rfl, hs, hc⟩
    · exact .inl hc
    · exact .inr ⟨rfl, hs, hc⟩

theorem Inv.session (h : Inv s) {i : ℕ} {g : Findings} (ha : Announced s (.session i g)) :
    Inv (step s (.session i g)) := by
  intro q hq hun
  have hq' : (s.reporter q).statChgSyncCount = (s.daemon.session i g).world.statChangeCount := hq
  rcases session_world s.daemon i g with hc | ⟨hpc, -, hc⟩
  · have hkeep : (s.reporter q).unannounced = false ∧
        (s.daemon.session i g).world.stat = s.daemon.world.stat := by
      simpa [step, hc] using hun
    show (s.reporter q).received = some (statBuff (s.daemon.session i g).world.stat)
    rw [hkeep.2]
    exact h q (hq'.trans hc) hkeep.1
  · exact absurd (hq'.trans hc) (ha hpc q)

theorem Inv.step (h : Inv s) {a : Action κ} (ha : Announced s a) :
    Current s a ∧ Inv (step s a) := by
  cases a with
  | accept => exact ⟨nofun, h⟩
  | session i g => exact ⟨nofun, h.session ha⟩
  | connect q =>
    refine ⟨nofun, fun p hp hun => ?_⟩
    have hsame : ((HeartBeats.step s (.connect q)).reporter p).statChgSyncCount =
          (s.reporter p).statChgSyncCount ∧
        ((HeartBeats.step s (.connect q)).reporter p).unannounced = (s.reporter p).unannounced ∧
        ((HeartBeats.step s (.connect q)).reporter p).received = (s.reporter p).received := by
      by_cases hpq : p = q
      · subst hpq
        simp [HeartBeats.step]
      · simp [HeartBeats.step, hpq]
    obtain ⟨h1, h2, h3⟩ := hsame
    rw [h3]
    exact h p (h1.symm.trans hp) (h2 ▸ hun)
  | beat q g => exact h.beat ha

/-- Where every body arrives and nothing stays unannounced, each heart beat that is delivered
leaves the tracker with the statistics as they are. -/
theorem beats_current (stat : FDFSStorageStat) (as : List (Action κ))
    (h : Meets step Announced (initial κ stat) as) : Meets step Current (initial κ stat) as :=
  h.conclude (inv_initial stat) fun _ _ hs ha => hs.step ha

def freshStat : FDFSStorageStat := ⟨0, 0, 0, 0, 0, 0, 0, 0, 0, 0, 0, 0⟩

/-- A heart beat, a whole download, and two more heart beats. -/
def successfulDownload : List (Action Unit) :=
  [.connect (), .beat () {}, .accept, .session 0 { cmd := some STORAGE_PROTO_CMD_DOWNLOAD_FILE },
    .session 0 {}, .session 0 {}, .session 0 {}, .session 0 {}, .beat () {}, .beat () {}]

theorem successfulDownload_current :
    Meets step Current (initial Unit freshStat) successfulDownload := by
  refine beats_current freshStat successfulDownload ?_
  refine ⟨trivial, ?_, trivial, ?_, ?_, ?_, ?_, ?_, ?_, ?_, trivial⟩
  · intro
    decide +kernel
  · intro h
    exact absurd h (by decide +kernel)
  · intro h
    exact absurd h (by decide +kernel)
  · intro h
    exact absurd h (by decide +kernel)
  · intro h
    exact absurd h (by decide +kernel)
  · intro h r
    cases r
    decide +kernel
  · intro
    decide +kernel
  · intro
    decide +kernel

/-- A heart beat, a download that fails, and one more heart beat. -/
def failedDownload : List (Action Unit) :=
  [.connect (), .beat () {}, .accept, .session 0 { cmd := some STORAGE_PROTO_CMD_DOWNLOAD_FILE },
    .session 0 { result := ENOENT }, .beat () {}]

/-- A heart beat whose body is lost, and one more behind a new connection. -/
def lostBody : List (Action Unit) :=
  [.connect (), .beat () { events := [.writeError] }, .connect (), .beat () {}]

/-- The last heart beat of both runs is empty and reaches the tracker, which has no body or
one that counts no download. -/
theorem heartBeats_not_current :
    ¬ Meets step Current (initial Unit freshStat) failedDownload ∧
      ¬ Meets step Current (initial Unit freshStat) lostBody := by
  constructor
  · intro h
    have hlast := h.2.2.2.2.2.1 () {} rfl (by decide +kernel)
    exact absurd hlast.1 (by decide +kernel)
  · intro h
    have hlast := h.2.2.2.1 () {} rfl (by decide +kernel)
    exact absurd hlast.1 (by decide +kernel)

end System

end DemoStorage.HeartBeats
