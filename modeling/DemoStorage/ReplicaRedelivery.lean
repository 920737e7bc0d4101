import DemoStorage.ConditionedRuns
import DemoStorage.UploadRoundTrip
import DemoStorage.LogWrites

/-!
# Delivering a copy request again

A sender repeats a request until it is acknowledged, and a file that exists is acknowledged
unseen. So an acknowledgement means what it says only if no earlier delivery left a file it
did not finish or did not log, and no failure along the way has the error number of an
existing file.
-/

namespace DemoStorage.ReplicaRedelivery
open ByteStrings PosixFileTree SocketTransfers DaemonState BinlogWriting BinlogOutcomes
open FileEffects LogWrites RequestHandlers ConnectionFraming ConditionedRuns UploadRoundTrip

/-- What one delivery of a request meets; `rest` is what follows it on the connection. -/
structure Delivery where
  env : RequestEnv := {}
  events : List RecvEvent := []
  rest : Bytes := []
  outbound : Outbound := ⟨[], []⟩

def deliver (cfg : Config) (body : Bytes) (w : World) (d : Delivery) : Handled :=
  storageSyncCopyFile cfg d.env STORAGE_PROTO_CMD_SYNC_CREATE_FILE body.length
    ⟨body ++ d.rest, d.events⟩ d.outbound w

def deliverStep (cfg : Config) (body : Bytes) (w : World) (d : Delivery) : World :=
  (deliver cfg body w d).world

def Delivery.received (d : Delivery) (body : Bytes) : Except Errno Bytes :=
  (recvAllocated d.env 34 body.length body.length ⟨body ++ d.rest, d.events⟩).2

/-- The file holds the content, and the log a record of its creation. -/
structure Replicated (cfg : Config) (req : SyncCopyRequest) (log : Loc) (w : World) : Prop where
  file : ∃ l, w.locate (dataPath cfg req.filename) = .ok l ∧ w.tree.content l = some req.content
  record : ∃ before time after, w.tree.content log = some (before ++
    recordText ⟨time, STORAGE_OP_TYPE_REPLICA_CREATE_FILE, req.filename⟩ ++ after)

/-- There is no such file. -/
def Missing (cfg : Config) (req : SyncCopyRequest) (w : World) : Prop :=
  ∀ l, w.locate (dataPath cfg req.filename) = .ok l → w.tree.content l = none

/-- The condition on a delivery: the path fits its array and names no directory; and while
the file is missing, no failure has the error number of an existing file, and a file that
can be opened is written whole and logged. -/
structure Kept (cfg : Config) (body : Bytes) (req : SyncCopyRequest) (w : World) (d : Delivery) :
    Prop where
  fits : (dataPath cfg req.filename).length < MAX_PATH_SIZE
  noDir : ∀ l, w.locate (dataPath cfg req.filename) = .ok l → w.tree.isDir l = false
  received : Missing cfg req w → d.received body ≠ .error EEXIST
  opened : Missing cfg req w → d.received body = .ok body →
    (∀ l, ¬ Opens d.env.write w (dataPath cfg req.filename) l) → d.env.write.errno ≠ EEXIST
  stored : Missing cfg req w → d.received body = .ok body →
    ∀ l, Opens d.env.write w (dataPath cfg req.filename) l → ¬ Short d.env.write req.content ∧
      Logs d.env.log w (logRecord d.env.log STORAGE_OP_TYPE_REPLICA_CREATE_FILE req.filename)

section Deliveries
variable {cfg : Config} {body : Bytes} {req : SyncCopyRequest} {log : Loc} {w : World}
  {d : Delivery}

theorem received_ok {data : Bytes} (h : d.received body = .ok data) : data = body := by
  unfold Delivery.received recvAllocated at h
  split_ifs at h
  obtain ⟨hp, hlen⟩ := receive_ok h
  rw [Int.toNat_natCast] at hlen
  exact (List.append_inj hp hlen.symm).1.symm

theorem received_error_ne_zero {e : Errno} (h : d.received body = .error e) : e ≠ 0 := by
  unfold Delivery.received recvAllocated at h
  split_ifs at h
  · cases h
    decide
  · cases h
    exact errnoOr_ne_zero (by decide)
  · exact receive_error_ne_zero h

theorem parseSyncCopy_filename {n : ℤ} (h : parseSyncCopy cfg n body = .ok req) :
    cstr req.filename = req.filename := by
  simp only [parseSyncCopy] at h
  split_ifs at h
  cases h
  exact cstr_cstr _

theorem deliver_error {e : Errno} (h : d.received body = .error e) :
    deliverStep cfg body w d = w ∧ ((deliver cfg body w d).result = 0 → e = EEXIST) := by
  unfold Delivery.received at h
  simp only [deliverStep, deliver, storageSyncCopyFile, withBody, h, Except.bind, act]
  exact ⟨trivial, fun h0 => (status_of_copy h0).resolve_left (received_error_ne_zero h)⟩

theorem deliver_ok (hp : parseSyncCopy cfg body.length body = .ok req)
    (h : d.received body = .ok body) :
    deliverStep cfg body w d =
        (syncCopyFile cfg d.env STORAGE_PROTO_CMD_SYNC_CREATE_FILE w req).1 ∧
      ((deliver cfg body w d).result = 0 →
        (syncCopyFile cfg d.env STORAGE_PROTO_CMD_SYNC_CREATE_FILE w req).2 = some 0 ∨
        (syncCopyFile cfg d.env STORAGE_PROTO_CMD_SYNC_CREATE_FILE w req).2 = some EEXIST) := by
  unfold Delivery.received at h
  simp only [deliverStep, deliver, storageSyncCopyFile, withBody, h, Except.bind, hp, act]
  refine ⟨trivial, fun h0 => ?_⟩
  obtain ⟨status, hs, h0⟩ := replyWhenAlive_eq_zero h0
  rw [hs]
  exact (status_of_copy h0).imp (congrArg some) (congrArg some)

theorem cutPath_of_fits {p : Bytes} (h : p.length < MAX_PATH_SIZE) : cutPath p = p :=
  List.take_of_length_le (by omega)

/-- A copy of a file that exists only looks. -/
theorem syncCopyFile_exists {env : RequestEnv} {p : Bytes}
    (hp : cutPath (dataPath cfg req.filename) = p) (hx : w.tree.access w.cwd p = true) :
    syncCopyFile cfg env STORAGE_PROTO_CMD_SYNC_CREATE_FILE w req = (w.touch p, some EEXIST) := by
  rw [syncCopyFile_eq cfg env _ w req hp, if_pos ⟨rfl, hx⟩]
  rfl

/-- A copy of a file that does not exist writes and logs it. -/
theorem syncCopyFile_missing {env : RequestEnv} {p : Bytes}
    (hp : cutPath (dataPath cfg req.filename) = p) (hx : w.tree.access w.cwd p = false) :
    syncCopyFile cfg env STORAGE_PROTO_CMD_SYNC_CREATE_FILE w req =
      if (writeToFile env.write (w.touch p) p req.content).2 ≠ 0 then
        ((writeToFile env.write (w.touch p) p req.content).1,
          some (writeToFile env.write (w.touch p) p req.content).2)
      else storageBinlogWrite cfg env.log (writeToFile env.write (w.touch p) p req.content).1
        STORAGE_OP_TYPE_REPLICA_CREATE_FILE req.filename := by
  rw [syncCopyFile_eq cfg env _ w req hp, if_neg (by simp [hx])]
  rfl

theorem Replicated.touch (h : Replicated cfg req log w) (p : Bytes) :
    Replicated cfg req log (w.touch p) := ⟨h.file, h.record⟩

theorem Replicated.access (h : Replicated cfg req log w) :
    w.tree.access w.cwd (dataPath cfg req.filename) = true := by
  obtain ⟨l, hl, hc⟩ := h.file
  exact FileTree.access_eq_true.mpr ⟨l, hl, by simp [FileTree.content_eq_some.mp hc]⟩

/-- A file that was replicated stays so, whatever a delivery meets. -/
theorem Replicated.deliver (h : Replicated cfg req log w)
    (hp : parseSyncCopy cfg body.length body = .ok req)
    (hfits : (dataPath cfg req.filename).length < MAX_PATH_SIZE) :
    Replicated cfg req log (deliverStep cfg body w d) := by
  cases hr : d.received body with
  | error e =>
    rw [(deliver_error hr).1]
    exact h
  | ok data =>
    rw [received_ok hr] at hr
    rw [(deliver_ok hp hr).1, syncCopyFile_exists (cutPath_of_fits hfits) h.access]
    exact h.touch _

theorem Missing.access (h : Missing cfg req w)
    (hd : ∀ l, w.locate (dataPath cfg req.filename) = .ok l → w.tree.isDir l = false) :
    w.tree.access w.cwd (dataPath cfg req.filename) = false := by
  by_contra hx
  obtain ⟨l, hl, hn⟩ := FileTree.access_eq_true.mp (by simpa using hx)
  have hcontent := h l hl
  have hdir := hd l hl
  cases hnode : w.tree.node l with
  | none => simp [hnode] at hn
  | some n => cases n with
    | dir => simp [FileTree.isDir, hnode] at hdir
    | file b => simp [FileTree.content, hnode] at hcontent

/-- A file that is written whole and logged is replicated. -/
private theorem Missing.stored {text : Bytes} {l : Loc} (h : Missing cfg req w)
    (hlog : Holds log w text) (hname : cstr req.filename = req.filename)
    (ho : Opens d.env.write w (dataPath cfg req.filename) l)
    (hlogs : Logs d.env.log w
      (logRecord d.env.log STORAGE_OP_TYPE_REPLICA_CREATE_FILE req.filename)) :
    Replicated cfg req log (storageBinlogWrite cfg d.env.log
      (stored w (dataPath cfg req.filename) l req.content) STORAGE_OP_TYPE_REPLICA_CREATE_FILE
      req.filename).1 := by
  have hne : l ≠ log := by
    rintro rfl
    have := h l ho.2.1
    rw [hlog.content] at this
    cases this
  have hoff := offLog_stored hne w (dataPath cfg req.filename) req.content
  have hrec := storageBinlogWrite_reaches cfg (hlog.offLog hoff)
    (Logs.reaches ((Logs.congr hoff.same.stream hoff.same.size).mpr hlogs))
  refine ⟨⟨l, ?_, ?_⟩, text, wrap32 d.env.log.time, [], ?_⟩
  · rw [hrec.apart.locate]
    exact (hoff.same.locate _ l).mpr ho.2.1
  · rw [hrec.apart.content hne]
    exact (FileTree.content_setFile ho.2.2 _ l).trans (if_pos rfl)
  · rw [List.append_nil, hrec.holds.content, logRecord, hname]

/-- What a delivery makes of a missing file under the condition. -/
theorem Missing.deliver {text : Bytes} (h : Missing cfg req w) (hlog : Holds log w text)
    (hp : parseSyncCopy cfg body.length body = .ok req) (hk : Kept cfg body req w d) :
    (Missing cfg req (deliverStep cfg body w d) ∧ Holds log (deliverStep cfg body w d) text ∧
        (deliver cfg body w d).result ≠ 0) ∨
      Replicated cfg req log (deliverStep cfg body w d) := by
  cases hr : d.received body with
  | error e =>
    obtain ⟨hw, hres⟩ := @deliver_error cfg body w d e hr
    rw [hw]
    exact .inl ⟨h, hlog, fun h0 => hk.received h (by rw [hr, hres h0])⟩
  | ok data =>
    rw [received_ok hr] at hr
    obtain ⟨hw, hres⟩ := @deliver_ok cfg body req w d hp hr
    rw [syncCopyFile_missing (cutPath_of_fits hk.fits) (h.access hk.noDir)] at hw hres
    set v := w.touch (dataPath cfg req.filename) with hv
    have hmiss : Missing cfg req v := h
    have hlog' : Holds log v text := ⟨hlog.stream, hlog.content⟩
    by_cases ho : ∃ l, Opens d.env.write w (dataPath cfg req.filename) l
    · obtain ⟨l, ho⟩ := ho
      obtain ⟨hshort, hlogs⟩ := hk.stored h hr l ho
      have ho' : Opens d.env.write v (dataPath cfg req.filename) l := ho
      obtain ⟨r, he, h0⟩ := writeToFile_of_opens ho' req.content
      rw [reached_of_not_short hshort] at he
      have hok : r = 0 := h0.mpr fun hs => hshort hs.short
      rw [he, if_neg (not_not.mpr hok)] at hw
      rw [hw]
      exact .inr (hmiss.stored hlog' (parseSyncCopy_filename hp) ho'
        ((Logs.congr (w := w) (v := v) rfl rfl).mpr hlogs))
    · have hne : errnoOr d.env.write.errno ENOENT ≠ 0 := errnoOr_ENOENT_ne_zero _
      have hwrite := @writeToFile_of_not_opens d.env.write v (dataPath cfg req.filename)
        (fun l hl => ho ⟨l, hl⟩) req.content
      have herrno : errnoOr d.env.write.errno ENOENT ≠ EEXIST := by
        unfold errnoOr
        split_ifs
        · exact hk.opened h hr fun l hl => ho ⟨l, hl⟩
        · decide
      rw [hwrite, if_pos hne] at hw hres
      rw [hw]
      exact .inl ⟨hmiss, ⟨hlog'.stream, hlog'.content⟩, fun h0 => (hres h0).elim
        (fun h => hne (Option.some.inj h)) fun h => herrno (Option.some.inj h)⟩

end Deliveries

section Runs
variable {cfg : Config} {body : Bytes} {req : SyncCopyRequest} {log : Loc}

/-- Either the file is still missing, or it was replicated. -/
def Tracked (cfg : Config) (req : SyncCopyRequest) (log : Loc) (w : World) : Prop :=
  Missing cfg req w ∧ (∃ text, Holds log w text) ∨ Replicated cfg req log w

theorem Tracked.deliver {w : World} {d : Delivery} (h : Tracked cfg req log w)
    (hp : parseSyncCopy cfg body.length body = .ok req) (hk : Kept cfg body req w d) :
    Tracked cfg req log (deliverStep cfg body w d) ∧ ((deliver cfg body w d).result = 0 →
      Replicated cfg req log (deliverStep cfg body w d)) := by
  obtain ⟨hm, text, hlog⟩ | hrep := h
  · obtain ⟨hm', hlog', hres⟩ | hrep := hm.deliver hlog hp hk
    · exact ⟨.inl ⟨hm', text, hlog'⟩, fun h0 => absurd h0 hres⟩
    · exact ⟨.inr hrep, fun _ => hrep⟩
  · have hrep' := hrep.deliver (d := d) hp hk.fits
    exact ⟨.inr hrep', fun _ => hrep'⟩

theorem Replicated.run {w : World} {ds : List Delivery} (h : Replicated cfg req log w)
    (hp : parseSyncCopy cfg body.length body = .ok req)
    (hk : Meets (deliverStep cfg body) (Kept cfg body req) w ds) :
    Replicated cfg req log (run (deliverStep cfg body) w ds) :=
  hk.invariant h fun _ _ hrep hd => hrep.deliver hp hd.fits

/-- Behind the first acknowledgement the file is replicated, in every later state of a run
whose deliveries keep to the condition. -/
theorem acknowledged_replicated {w : World} {text : Bytes} {earlier later : List Delivery}
    {d : Delivery} (hp : parseSyncCopy cfg body.length body = .ok req) (hlog : Holds log w text)
    (hm : Missing cfg req w)
    (hk : Meets (deliverStep cfg body) (Kept cfg body req) w (earlier ++ d :: later))
    (hack : (deliver cfg body (run (deliverStep cfg body) w earlier) d).result = 0) :
    Replicated cfg req log (run (deliverStep cfg body) w (earlier ++ d :: later)) := by
  obtain ⟨hearlier, hd, hlater⟩ := (meets_append w earlier (d :: later)).mp hk
  have htracked : Tracked cfg req log (run (deliverStep cfg body) w earlier) :=
    hearlier.invariant (.inl ⟨hm, text, hlog⟩) fun _ _ h hk => (h.deliver hp hk).1
  rw [run_append, run_cons]
  exact ((htracked.deliver hp hd).2 hack).run hp hlater

/-- The package of a copy request for a file with five bytes. -/
def samplePackage : Bytes :=
  lengthField 7 (fun _ => 0) ++ lengthField 5 (fun _ => 0) ++
    downloadBody sampleConfig (ascii "00/00/f") ++ ascii "hello"

def sampleRequest : SyncCopyRequest := ⟨ascii "00/00/f", ascii "hello"⟩

theorem samplePackage_parses :
    parseSyncCopy sampleConfig samplePackage.length samplePackage = .ok sampleRequest := by
  decide +kernel

/-- Where a store keeps the file. -/
def sampleLoc : Loc := [ascii "b", ascii "data", ascii "00", ascii "00", ascii "f"]

private theorem freshWorld_locate :
    freshWorld.locate (dataPath sampleConfig sampleRequest.filename) = .ok sampleLoc := by
  decide +kernel

theorem freshWorld_holds : Holds sampleLogLoc freshWorld [] :=
  ⟨by decide +kernel, by decide +kernel⟩

theorem freshWorld_missing : Missing sampleConfig sampleRequest freshWorld := by
  intro l hl
  rw [freshWorld_locate] at hl
  cases hl
  decide +kernel

/-- A delivery that cannot open the file, and one that meets no failure. -/
private def refusedDelivery : Delivery := { env := { write := { fopen := true } } }

theorem secondDelivery_replicated : Replicated sampleConfig sampleRequest sampleLogLoc
    (run (deliverStep sampleConfig samplePackage) freshWorld [refusedDelivery, {}]) := by
  have hfirst : Kept sampleConfig samplePackage sampleRequest freshWorld refusedDelivery :=
    ⟨by decide, fun l hl => Except.ok.inj (freshWorld_locate.symm.trans hl) ▸ by decide +kernel,
      fun _ => by decide +kernel, fun _ _ _ => by decide, fun _ _ l ho => absurd ho.1 (by decide)⟩
  have hlocate : (deliverStep sampleConfig samplePackage freshWorld refusedDelivery).locate
      (dataPath sampleConfig sampleRequest.filename) = .ok sampleLoc := by decide +kernel
  have hshort : ¬ Short ({} : WriteFaults) sampleRequest.content := not_short_of_quiet rfl rfl _
  have hsecond : Kept sampleConfig samplePackage sampleRequest
      (deliverStep sampleConfig samplePackage freshWorld refusedDelivery) {} :=
    ⟨by decide, fun l hl => Except.ok.inj (hlocate.symm.trans hl) ▸ by decide +kernel,
      fun _ => by decide +kernel, fun _ _ _ => by decide, fun _ _ l _ =>
        ⟨hshort, ⟨⟨rfl, rfl, rfl, rfl⟩, ⟨sampleLogLoc, by decide +kernel⟩, by decide +kernel,
          by decide +kernel⟩⟩⟩
  exact @acknowledged_replicated sampleConfig samplePackage sampleRequest sampleLogLoc freshWorld []
    [refusedDelivery] [] {} samplePackage_parses freshWorld_holds freshWorld_missing
    ⟨hfirst, hsecond, trivial⟩ (by decide +kernel)

/-- A delivery whose record cannot be logged. -/
private def unloggedDelivery : Delivery := { env := { log := { lock := true } } }

/-- It leaves its file, and the next delivery is acknowledged for that. -/
theorem unloggedDelivery_not_replicated :
    parseSyncCopy sampleConfig samplePackage.length samplePackage = .ok sampleRequest ∧
      Missing sampleConfig sampleRequest freshWorld ∧ Holds sampleLogLoc freshWorld [] ∧
      (deliver sampleConfig samplePackage (run (deliverStep sampleConfig samplePackage) freshWorld
        [unloggedDelivery]) {}).result = 0 ∧
      ¬ Replicated sampleConfig sampleRequest sampleLogLoc
        (run (deliverStep sampleConfig samplePackage) freshWorld [unloggedDelivery, {}]) := by
  refine ⟨samplePackage_parses, freshWorld_missing, freshWorld_holds, by decide +kernel, ?_⟩
  rintro ⟨-, before, time, after, hc⟩
  have hlog : (run (deliverStep sampleConfig samplePackage) freshWorld
      [unloggedDelivery, {}]).tree.content sampleLogLoc = some [] := by decide +kernel
  rw [hlog] at hc
  simp [recordText] at hc

end Runs

end DemoStorage.ReplicaRedelivery
