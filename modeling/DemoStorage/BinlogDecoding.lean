import DemoStorage.BinlogText
import DemoStorage.ConditionedRuns
import DemoStorage.StoreRequests
import DemoStorage.UploadCleanup

/-!
# Decoding the binlog of a run of requests

Nothing keeps a newline out of a name a peer sends, and the name is logged as it came, so a
record can be two lines. Where no logged name has one, no name leads to the binlog file, and
every write whose bytes reached the file returned 0, the lines of the file are the writes
that returned 0.
-/

namespace DemoStorage.BinlogDecoding
open ByteStrings PosixFileTree SocketTransfers MetadataRecords DaemonState BinlogWriting
open BinlogOutcomes
open BinlogText FileEffects LogWrites RequestHandlers UploadExits StoreRequests ConditionedRuns
open UploadRoundTrip

/-- The lines of the log file are the writes that returned 0. -/
def Decodable (l : Loc) (w : World) : Prop :=
  ∃ text, w.tree.content l = some text ∧ decodeBinlog text = w.written.map some

/-- Two writes one behind the other return 0 or leave the file alone. -/
def CleanPair (env : RequestEnv) (w : World) (op : Byte) (filename metaname : Bytes) : Prop :=
  let record := logRecord env.log op filename
  Clean env.log w record ∧
    (Logs env.log w record → Clean env.metaLog (counted w record)
      (logRecord env.metaLog op metaname))

/-- The condition on a request: names without a newline that do not lead to the log, and
writes that return 0 or leave the file alone. -/
def Readable (cfg : Config) (env : RequestEnv) (l : Loc) (w : World) : StoreRequest → Prop
  | .upload u => ∀ filename, chosen cfg env w u = some filename →
      newline ∉ cstr filename ∧ w.locate (dataFile cfg filename) ≠ .ok l ∧
      w.locate (metaFile cfg filename) ≠ .ok l ∧
      CleanPair env w STORAGE_OP_TYPE_SOURCE_CREATE_FILE filename
        (cstr filename ++ STORAGE_META_FILE_EXT)
  | .delete filename => newline ∉ filename ∧ w.locate (dataPath cfg filename) ≠ .ok l ∧
      w.locate (dataPath cfg filename ++ STORAGE_META_FILE_EXT) ≠ .ok l ∧
      CleanPair env w STORAGE_OP_TYPE_SOURCE_DELETE_FILE filename
        (filename ++ STORAGE_META_FILE_EXT)
  | .syncCopy protoCmd req => newline ∉ req.filename ∧
      w.locate (cutPath (dataPath cfg req.filename)) ≠ .ok l ∧
      Clean env.log w (logRecord env.log (copyOp protoCmd) req.filename)
  | .syncDelete filename => newline ∉ filename ∧ w.locate (dataPath cfg filename) ≠ .ok l ∧
      Clean env.log w (logRecord env.log STORAGE_OP_TYPE_REPLICA_DELETE_FILE filename)

/-- The log file is the text of the writes that returned 0, each of them one line. -/
structure Intact (l : Loc) (w : World) : Prop where
  holds : Holds l w (encodeBinlog w.written)
  oneLine : ∀ r ∈ w.written, OneLine r

theorem not_decodable_of_content {l : Loc} {w : World} {text : Bytes}
    (hc : w.tree.content l = some text) (hd : decodeBinlog text ≠ w.written.map some) :
    ¬ Decodable l w := by
  rintro ⟨text', hc', hd'⟩
  rw [hc] at hc'
  cases hc'
  exact hd hd'

theorem Intact.decodable {l : Loc} {w : World} (h : Intact l w) : Decodable l w :=
  ⟨_, h.holds.content, decodeBinlog_encode h.oneLine⟩

section Steps
variable {cfg : Config} {env : RequestEnv} {l : Loc} {w v : World}

theorem Intact.offLog (h : Intact l w) (ho : OffLog l w v) : Intact l v := by
  refine ⟨?_, ?_⟩
  · rw [ho.written]
    exact h.holds.offLog ho
  · rw [ho.written]
    exact h.oneLine

/-- A clean write of a one-line record. -/
theorem Intact.write (cfg : Config) {f : BinlogFaults} {op : Byte} {filename : Bytes}
    (h : Intact l w)
    (hop : op ≠ newline) (hname : newline ∉ cstr filename)
    (hc : Clean f w (logRecord f op filename)) : Intact l (storageBinlogWrite cfg f w op filename).1 ∧
      Apart (· = l) w (storageBinlogWrite cfg f w op filename).1 := by
  obtain hlogs | hno := hc
  · have hr := storageBinlogWrite_reaches cfg h.holds (Logs.reaches hlogs)
    have h0 := (@storageBinlogWrite_eq_zero cfg _ _ _ _).mpr hlogs
    have hw := hr.written
    rw [if_pos h0] at hw
    refine ⟨⟨?_, ?_⟩, hr.apart⟩
    · rw [hw, encodeBinlog_append]
      exact hr.holds
    · rw [hw]
      intro r hrec
      obtain hold | hnew := List.mem_append.mp hrec
      · exact h.oneLine r hold
      · rw [List.mem_singleton.mp hnew]
        exact ⟨hop, hname⟩
  · obtain ⟨-, hhold, -, hapart, hw⟩ := storageBinlogWrite_unprinted cfg h.holds hno
    exact ⟨⟨by rwa [hw], by rw [hw]; exact h.oneLine⟩, hapart⟩

/-- Two clean writes of one-line records, with steps outside the log before each of them. -/
theorem Intact.pair (cfg : Config) {op : Byte} {filename metaname : Bytes} (h : Intact l w)
    (ho : OffLog l w v)
    (hop : op ≠ newline) (hname : newline ∉ cstr filename) (hmeta : newline ∉ cstr metaname)
    (hp : CleanPair env w op filename metaname) :
    Intact l (storageBinlogWrite cfg env.log v op filename).1 ∧
      Apart (· = l) v (storageBinlogWrite cfg env.log v op filename).1 ∧
      ((storageBinlogWrite cfg env.log v op filename).2 = some 0 → ∀ u,
        OffLog l (storageBinlogWrite cfg env.log v op filename).1 u →
          Intact l (storageBinlogWrite cfg env.metaLog u op metaname).1) := by
  obtain ⟨hv, hapart⟩ := (h.offLog ho).write cfg hop hname
    ((Clean.congr ho.same.stream ho.same.size).mpr hp.1)
  refine ⟨hv, hapart, fun h0 u hu => ((hv.offLog hu).write cfg hop hmeta ?_).1⟩
  have hlogs := storageBinlogWrite_eq_zero.mp h0
  have hw := (Logs.congr ho.same.stream ho.same.size).mp hlogs
  obtain ⟨hs, hn⟩ := storageBinlogWrite_counted cfg hlogs
  have hsize : (counted v (logRecord env.log op filename)).binlogFileSize =
      (counted w (logRecord env.log op filename)).binlogFileSize := by
    simp [counted, nextSize, ho.same.size]
  refine (Clean.congr ?_ ?_).mp (hp.2 hw)
  · exact (ho.same.stream.symm.trans hs.symm).trans hu.same.stream.symm
  · exact (hsize.symm.trans hn.symm).trans hu.same.size.symm

theorem saveFileAs_offLog {u : UploadRequest} {full : Bytes} (hfull : w.locate full ≠ .ok l)
    (hmeta : w.locate (full ++ STORAGE_META_FILE_EXT) ≠ .ok l) :
    OffLog l w (saveFileAs cfg env w u full).1 := by
  have h1 := writeToFile_offLog env.write hfull u.content
  simp only [saveFileAs]
  generalize writeToFile env.write w full u.content = r1 at h1 ⊢
  split_ifs
  · exact h1
  · exact h1
  · have hu := unlink_offLog env.unlinkData (h1.locate_ne hfull)
    simp only [saveMetadata]
    generalize storageSortMetadataBuff cfg.qsort env.metaMalloc (u.metaBuff ++ [0]) = m
    obtain ⟨r, metaBuff⟩ := m
    dsimp only
    have h2 := writeToFile_offLog env.metaWrite (h1.locate_ne hmeta) (metaBuff.take u.metaBytes)
    generalize writeToFile env.metaWrite r1.1 (full ++ STORAGE_META_FILE_EXT)
      (metaBuff.take u.metaBytes) = r2 at h2 ⊢
    have h12 := h1.trans h2
    split_ifs
    · exact h1.trans hu
    · exact h12.trans (unlink_offLog env.unlinkData (h12.locate_ne hfull))
    · exact h12

theorem storageSaveFile_offLog {u : UploadRequest}
    (hfull : ∀ filename, chosen cfg env w u = some filename →
      w.locate (dataFile cfg filename) ≠ .ok l)
    (hmeta : ∀ filename, chosen cfg env w u = some filename →
      w.locate (metaFile cfg filename) ≠ .ok l) :
    OffLog l w (storageSaveFile cfg env w u).1 ∧ ((storageSaveFile cfg env w u).2.1 = 0 →
      chosen cfg env w u = some (storageSaveFile cfg env w u).2.2) := by
  obtain ⟨cs, hv⟩ := genUnusedFilename_world cfg env.clock u.content.length 1024 0 w
  have hcalls := offLog_calls w l cs
  cases hc : chosen cfg env w u with
  | none =>
    have hgen : genUnusedFilename cfg env.clock u.content.length 1024 0 w =
        ({ w with calls := cs }, none) := Prod.ext hv hc
    simp only [storageSaveFile, hgen]
    exact ⟨hcalls, fun h0 => absurd h0 (by decide)⟩
  | some filename =>
    have hgen : genUnusedFilename cfg env.clock u.content.length 1024 0 w =
        ({ w with calls := cs }, some filename) := Prod.ext hv hc
    have hsave := @saveFileAs_offLog cfg env l _ u _
      (hcalls.locate_ne (hfull filename hc)) (hcalls.locate_ne (hmeta filename hc))
    simp only [storageSaveFile, hgen]
    exact ⟨hcalls.trans hsave, fun h0 => by rw [if_pos h0]⟩

private theorem newline_notMem_meta {filename : Bytes} (h : newline ∉ filename) :
    newline ∉ cstr (filename ++ STORAGE_META_FILE_EXT) :=
  fun hm => line_notMem h (by decide) (mem_of_mem_cstr hm)

theorem upload_intact {u : UploadRequest} (h : Intact l w) (hr : Readable cfg env l w (.upload u)) :
    Intact l (uploadFile cfg env w u).1 := by
  obtain ⟨ho, hname⟩ := storageSaveFile_offLog (fun f hf => (hr f hf).2.1) fun f hf => (hr f hf).2.2.1
  simp only [uploadFile]
  generalize storageSaveFile cfg env w u = s at ho hname ⊢
  obtain ⟨d, r, filename⟩ := s
  dsimp only at ho hname ⊢
  by_cases h0 : r = 0
  · obtain ⟨hline, -, -, hclean⟩ := hr filename (hname h0)
    obtain ⟨hw, -, hsecond⟩ := h.pair cfg ho (by decide) hline (newline_notMem_meta hline)
      hclean
    rw [if_neg (not_not.mpr h0)]
    generalize storageBinlogWrite cfg env.log d STORAGE_OP_TYPE_SOURCE_CREATE_FILE filename = x at *
    split_ifs with h1
    · exact hw
    · exact hw
    · exact hsecond (not_not.mp h1) _ (.refl _ l)
  · rw [if_pos h0]
    exact h.offLog ho

theorem delete_intact {filename : Bytes} (h : Intact l w)
    (hr : Readable cfg env l w (.delete filename)) : Intact l (deleteFile cfg env w filename).1 := by
  obtain ⟨hline, hdata, hmeta, hclean⟩ := hr
  have ho := unlink_offLog env.unlinkData hdata
  have hline' : newline ∉ cstr filename := fun hm => hline (mem_of_mem_cstr hm)
  simp only [deleteFile]
  generalize unlink env.unlinkData w (dataPath cfg filename) = s at ho ⊢
  obtain ⟨d, failed⟩ := s
  dsimp only at ho ⊢
  obtain ⟨hw, hapart, hsecond⟩ := h.pair cfg ho (by decide) hline'
    (newline_notMem_meta hline) hclean
  generalize storageBinlogWrite cfg env.log d STORAGE_OP_TYPE_SOURCE_DELETE_FILE filename = x at *
  have hu := unlink_offLog env.unlinkMeta ((hapart.locate _ l).not.mpr (ho.locate_ne hmeta))
  generalize unlink env.unlinkMeta x.1 (dataPath cfg filename ++ STORAGE_META_FILE_EXT) = y at *
  split_ifs with hfailed h1 h2
  · exact h.offLog ho
  · exact hw
  · exact hw.offLog hu
  · exact hsecond (not_not.mp h1) y.1 hu

theorem syncCopy_intact {protoCmd : Byte} {req : SyncCopyRequest} (h : Intact l w)
    (hr : Readable cfg env l w (.syncCopy protoCmd req)) :
    Intact l (syncCopyFile cfg env protoCmd w req).1 := by
  obtain ⟨hline, hdata, hclean⟩ := hr
  have hline' : newline ∉ cstr req.filename := fun hm => hline (mem_of_mem_cstr hm)
  obtain ⟨cs, hstart⟩ := copyStart_eq protoCmd w (cutPath (dataPath cfg req.filename))
  have hcalls := offLog_calls w l cs
  have hw := hcalls.trans (writeToFile_offLog env.write (hcalls.locate_ne hdata) req.content)
  rw [syncCopyFile_eq cfg env protoCmd w req rfl, hstart]
  dsimp only
  generalize writeToFile env.write { w with calls := cs } (cutPath (dataPath cfg req.filename))
    req.content = x at *
  have hop : copyOp protoCmd ≠ newline := by
    unfold copyOp
    split_ifs <;> decide
  have hlog := ((h.offLog hw).write cfg hop hline'
    ((Clean.congr hw.same.stream hw.same.size).mpr hclean)).1
  by_cases he : protoCmd = STORAGE_PROTO_CMD_SYNC_CREATE_FILE ∧
      w.tree.access w.cwd (cutPath (dataPath cfg req.filename)) = true
  · rw [if_pos he]
    exact h.offLog hcalls
  · rw [if_neg he]
    by_cases h0 : x.2 = 0
    · rw [if_neg (not_not.mpr h0)]
      exact hlog
    · rw [if_pos h0]
      exact h.offLog hw

theorem syncDelete_intact {filename : Bytes} (h : Intact l w)
    (hr : Readable cfg env l w (.syncDelete filename)) :
    Intact l (syncDeleteFile cfg env w filename).1 := by
  obtain ⟨hline, hdata, hclean⟩ := hr
  have ho := unlink_offLog env.unlinkData hdata
  have hline' : newline ∉ cstr filename := fun hm => hline (mem_of_mem_cstr hm)
  simp only [syncDeleteFile]
  generalize unlink env.unlinkData w (dataPath cfg filename) = s at ho ⊢
  obtain ⟨d, failed⟩ := s
  dsimp only at ho ⊢
  have hlog := ((h.offLog ho).write cfg (by decide) hline'
    ((Clean.congr ho.same.stream ho.same.size).mpr hclean)).1
  cases failed with
  | none => exact hlog
  | some e =>
    dsimp only
    split_ifs
    · exact hlog
    · exact h.offLog ho

/-- Every request that keeps to the condition leaves the log intact. -/
theorem perform_intact (h : Intact l w) {r : StoreRequest} (hr : Readable cfg env l w r) :
    Intact l (perform cfg env w r).1 := by
  cases r with
  | upload u => exact upload_intact h hr
  | delete filename => exact delete_intact h hr
  | syncCopy protoCmd req => exact syncCopy_intact h hr
  | syncDelete filename => exact syncDelete_intact h hr

end Steps

section Runs
variable {cfg : Config}

/-- A call of one of the handlers whose request, if one is accepted, keeps to the condition. -/
def CallReadable (cfg : Config) (l : Loc) (w : World) (c : Call) : Prop :=
  isStoreCmd c.cmd ∧ ∀ r, c.received cfg = .ok r → Readable cfg c.env l w r

/-- In every state of a run of such calls the lines of the log are the writes that returned 0. -/
theorem requests_decodable {l : Loc} {w : World} {cs : List Call} (h : Intact l w)
    (hcs : Meets (serveCall cfg) (CallReadable cfg l) w cs) {ds : List Call} (hp : ds <+: cs) :
    Decodable l (run (serveCall cfg) w ds) := by
  refine Intact.decodable (hcs.always h (fun v c hv hc => ?_) hp)
  rw [serveCall_eq hc.1]
  cases hr : c.received cfg with
  | error e => exact hv
  | ok r => exact perform_intact hv (hc.2 r hr)

/-- A request to delete a file, from another server. -/
def syncDeleteCall (filename : Bytes) : Call where
  env := {}
  cmd := STORAGE_PROTO_CMD_SYNC_DELETE_FILE
  nInPackLen := FDFS_GROUP_NAME_MAX_LEN + filename.length
  inbound := ⟨downloadBody sampleConfig filename, []⟩

/-- A request whose record is flushed to the file in part. -/
def tornCall : Call :=
  { syncDeleteCall (ascii "x") with env := { log := { fflush := some 3 } } }

/-- The binlog file as a name, seen from the data directory. -/
def climbingName : Bytes := ascii "../sync/binlog.index"

theorem freshWorld_intact : Intact sampleLogLoc freshWorld := by
  have hw : freshWorld.written = [] := by decide +kernel
  exact ⟨⟨by decide +kernel, by decide +kernel⟩, by simp [hw]⟩

private theorem syncDeleteCall_readable {w : World} (hs : w.fpBinlog = some ⟨sampleLogLoc, true⟩)
    (hl : w.locate (dataPath sampleConfig (ascii "x")) ≠ .ok sampleLogLoc)
    (hsize : nextSize w 6 < SYNC_BINLOG_FILE_MAX_SIZE) :
    CallReadable sampleConfig sampleLogLoc w (syncDeleteCall (ascii "x")) := by
  refine ⟨by decide, fun r hr => ?_⟩
  have hreceived : (syncDeleteCall (ascii "x")).received sampleConfig =
      .ok (.syncDelete (ascii "x")) := by decide +kernel
  rw [hreceived] at hr
  cases hr
  exact ⟨by decide, hl, .inl ⟨⟨rfl, rfl, rfl, rfl⟩, ⟨_, hs⟩, by decide, hsize⟩⟩

theorem freshWorld_decodable : Decodable sampleLogLoc (run (serveCall sampleConfig) freshWorld
    [syncDeleteCall (ascii "x"), syncDeleteCall (ascii "x")]) := by
  have hm : Meets (serveCall sampleConfig) (CallReadable sampleConfig sampleLogLoc) freshWorld
      [syncDeleteCall (ascii "x"), syncDeleteCall (ascii "x")] :=
    ⟨syncDeleteCall_readable (by decide +kernel) (by decide +kernel) (by decide +kernel),
      syncDeleteCall_readable (by decide +kernel) (by decide +kernel) (by decide +kernel), trivial⟩
  exact requests_decodable freshWorld_intact hm (List.prefix_refl _)

/-- A name with a newline is accepted and logged as two lines, the second of them no record;
a record whose flush fails leaves the part that had reached the file; and a name that climbs
to the binlog file deletes it. -/
theorem requests_not_decodable : Intact sampleLogLoc freshWorld ∧
    ((syncDeleteCall (ascii "a\nb")).received sampleConfig = .ok (.syncDelete (ascii "a\nb")) ∧
      ¬ Decodable sampleLogLoc
        (serveCall sampleConfig freshWorld (syncDeleteCall (ascii "a\nb")))) ∧
    (tornCall.received sampleConfig = .ok (.syncDelete (ascii "x")) ∧
      ¬ Decodable sampleLogLoc (serveCall sampleConfig freshWorld tornCall)) ∧
    ((syncDeleteCall climbingName).received sampleConfig = .ok (.syncDelete climbingName) ∧
      ¬ Decodable sampleLogLoc
        (serveCall sampleConfig freshWorld (syncDeleteCall climbingName))) := by
  refine ⟨freshWorld_intact, ⟨by decide +kernel, ?_⟩, ⟨by decide +kernel, ?_⟩,
    ⟨by decide +kernel, ?_⟩⟩
  · have htext : (serveCall sampleConfig freshWorld (syncDeleteCall (ascii "a\nb"))).tree.content
        sampleLogLoc = some (ascii "0 d a\nb\n") := by decide +kernel
    exact not_decodable_of_content htext (by decide +kernel)
  · have htext : (serveCall sampleConfig freshWorld tornCall).tree.content sampleLogLoc =
        some (ascii "0 d") := by decide +kernel
    exact not_decodable_of_content htext (by decide +kernel)
  · rintro ⟨text, hc, -⟩
    have hgone : (serveCall sampleConfig freshWorld (syncDeleteCall climbingName)).tree.content
        sampleLogLoc = none := by decide +kernel
    rw [hgone] at hc
    cases hc

end Runs

end DemoStorage.BinlogDecoding
