import DemoStorage.StoreService

/-!
# A connection is a session of the store

A client sends requests one behind the other, and does not wait for the replies: a reply is sent
only while there is something to be read, and behind a wait that times out the connection is
given up. However the stream of such a client is cut into chunks, the thread serves its requests
in their order until an answer ends the session, and behind each of them the files, the log and
what the client reads are those of a session of the store.
-/

namespace DemoStorage.StoreSessions
open ByteStrings PosixFileTree SocketTransfers DaemonState BinlogWriting RequestHandlers ServiceThread
open TrackerProtocol ConnectionFraming ReplyAgreement RequestDecoding ContentStores
open StoreLayout DelimitedStreams SessionFraming StoreService
open ReporterSessions (cmdOf_requestHeader)

/-- A request as it is sent: its header and its package. -/
def sentBytes (cfg : Config) (r : SentRequest) : Bytes :=
  requestHeader (hexadecimal (package cfg.groupName r).length) r.cmd ++ package cfg.groupName r

def handledBy : List Round → List Handled
  | [] => []
  | .idle _ _ :: rounds => handledBy rounds
  | .request q :: rounds => q.handled.elim (handledBy rounds) fun g => g :: handledBy rounds

/-- No read times out within a package. -/
def BetweenRequests : Round → Prop
  | .idle start _ => start.events.head? = some .timeout
  | .request q => (tcprecvdata q.body q.header.nInPackLen).result ≠ 0

instance : DecidablePred BetweenRequests
  | .idle start _ => inferInstanceAs (Decidable (start.events.head? = some .timeout))
  | .request q => inferInstanceAs (Decidable ((tcprecvdata q.body q.header.nInPackLen).result ≠ 0))

/-- A state in which the log is open and every file of the store can be sent. -/
structure Ready (cfg : Config) (log : Loc) (base : Bytes) (w : World) : Prop where
  alive : w.killed = false
  stream : w.fpBinlog = some ⟨log, true⟩
  running : w.continueFlag = true
  content : w.tree.content log = some base
  length : ∀ name c, Placed cfg w log name → w.tree.content (placeOf cfg w name) = some c →
    (c.length : ℤ) ≤ INT_MAX

/-- The store a state is, with an empty log. -/
def storeOf (cfg : Config) (w : World) : Files where
  files name := w.tree.content (placeOf cfg w name)
  log := []

section Receiving
variable {cfg : Config}

theorem length_requestHeader {n : ℤ} (cmd : Byte) :
    (requestHeader (hexadecimal n) cmd).length = 11 := by
  rw [requestHeader, List.length_append,
    length_padField ((length_hexadecimal_le n).trans (by decide))]
  rfl

theorem decodeHeader_sent (r : SentRequest)
    (hlen : ((package cfg.groupName r).length : ℤ) < INT_MAX) :
    (decodeHeader (requestHeader (hexadecimal (package cfg.groupName r).length) r.cmd)).cmd =
        r.cmd ∧
      (decodeHeader (requestHeader (hexadecimal (package cfg.groupName r).length) r.cmd)).nInPackLen =
        (package cfg.groupName r).length := by
  constructor
  · have hcmd := @cmdOf_requestHeader (hexadecimal (package cfg.groupName r).length)
      ((length_hexadecimal_le _).trans (by decide)) r.cmd []
    rwa [List.append_nil] at hcmd
  · rw [requestHeader, padField_eq (length_hexadecimal_le _)]
    exact nInPackLen_fillField (Int.natCast_nonneg _) (by omega) _ _

/-- Without a timeout a smooth receive succeeds when enough is there. -/
theorem received_of_smooth {inb : Inbound} {size : ℤ} (h : Smooth inb.events)
    (h0 : (tcprecvdata inb size).result ≠ 0) (hle : size.toNat ≤ inb.pending.length) :
    (tcprecvdata inb size).result = 1 := by
  obtain ⟨hres, -, -⟩ := recvLoop_eq_ideal h inb.pending size.toNat h0
  rw [recvLoop_nil, if_pos hle] at hres
  exact hres

theorem smooth_rest {inb : Inbound} (h : Smooth inb.events) (size : ℤ) :
    Smooth (tcprecvdata inb size).rest.events := recvLoop_smooth_rest h _ _

/-- A wait that times out at once takes nothing off the stream. -/
theorem pause_keeps {inb : Inbound} (h : inb.events.head? = some .timeout) :
    (tcprecvdata inb sizeofHeader).rest.pending = inb.pending := by
  obtain ⟨pending, evs⟩ := inb
  obtain ⟨evs, rfl⟩ : ∃ evs', evs = .timeout :: evs' := by
    cases evs with
    | nil => cases h
    | cons e evs => exact ⟨evs, congrArg (· :: evs) (Option.some.inj h)⟩
  rfl

theorem length_sentBytes_ge (r : SentRequest) : 11 ≤ (sentBytes cfg r).length := by
  rw [sentBytes, List.length_append, length_requestHeader]
  omega

/-- A request at the front of the stream: its header is read, and its body is its package. -/
theorem request_received {inb : Inbound} {r : SentRequest} {rest : Bytes} {env : RequestEnv}
    (hmalloc : env.mallocFails = false) (hsmooth : Smooth inb.events)
    (hlen : ((package cfg.groupName r).length : ℤ) < INT_MAX)
    (hpending : inb.pending = sentBytes cfg r ++ rest)
    (hheader : (tcprecvdata inb sizeofHeader).result = 1) :
    let body := (tcprecvdata inb sizeofHeader).rest
    let header := decodeHeader (tcprecvdata inb sizeofHeader).data
    header.cmd = r.cmd ∧ header.nInPackLen = (package cfg.groupName r).length ∧
      ((tcprecvdata body (package cfg.groupName r).length).result ≠ 0 →
        (receiveBody env r.cmd (package cfg.groupName r).length body).2 =
            .ok (package cfg.groupName r) ∧
          (receiveBody env r.cmd (package cfg.groupName r).length body).1.pending = rest ∧
          Smooth (receiveBody env r.cmd (package cfg.groupName r).length body).1.events) := by
  obtain ⟨hdata, hrest, -⟩ := header_received hheader
  have hhead := length_requestHeader (n := (package cfg.groupName r).length) r.cmd
  rw [sentBytes, List.append_assoc] at hpending
  have htake : inb.pending.take 11 =
      requestHeader (hexadecimal (package cfg.groupName r).length) r.cmd := by
    rw [hpending, List.take_left' hhead]
  have hdrop : inb.pending.drop 11 = package cfg.groupName r ++ rest := by
    rw [hpending, List.drop_left' hhead]
  obtain ⟨hcmd, hn⟩ := @decodeHeader_sent cfg r hlen
  intro body header
  have hbody : body.pending = package cfg.groupName r ++ rest := hrest.trans hdrop
  have hheader' : header =
      decodeHeader (requestHeader (hexadecimal (package cfg.groupName r).length) r.cmd) := by
    simp only [header, hdata, htake]
  refine ⟨hheader' ▸ hcmd, hheader' ▸ hn, fun hcalm => ?_⟩
  have hone : (tcprecvdata body (package cfg.groupName r).length).result = 1 := by
    refine received_of_smooth (smooth_rest hsmooth _) hcalm ?_
    rw [hbody, List.length_append, Int.toNat_natCast]
    omega
  rw [receiveBody_eq, bodySize_package hmalloc]
  dsimp only
  refine ⟨receive_package hbody hone, ?_, smooth_rest (smooth_rest hsmooth _) _⟩
  obtain ⟨-, hrest', -⟩ := tcprecvdata_received hone
  refine hrest'.trans ?_
  rw [hbody, Int.toNat_natCast, List.drop_left]

end Receiving

/-- Every request that can be sent has a handler. -/
theorem handler_sent (env : RequestEnv) (r : SentRequest) :
    ∃ f, handler cfg env r.cmd = some f := by
  cases r with
  | syncCopy protoCmd hcmd filename content =>
    obtain rfl | rfl := hcmd
    · exact ⟨_, rfl⟩
    · exact ⟨_, rfl⟩
  | setMetadata filename merge metaBuff => exact ⟨_, rfl⟩
  | named protoCmd hcmd filename =>
    obtain rfl | rfl | rfl | rfl := id hcmd
    · exact ⟨_, rfl⟩
    · exact ⟨_, rfl⟩
    · exact ⟨_, rfl⟩
    · exact ⟨_, rfl⟩

/-- Behind the body of a request that is served its client is heard from again. -/
theorem heard_of_peerHeard {env : ThreadEnv} {start body : Inbound} {header : TrackerHeader}
    {out : Outbound} {w : World} {f : ℤ → Inbound → Outbound → World → Handled}
    (hf : handler cfg env.request header.cmd = some f)
    (h : PeerHeard (.request (serve cfg env start body header out w).1)) :
    (receiveBody env.request header.cmd header.nInPackLen body).1.Heard := by
  simp only [PeerHeard, serve, hf] at h
  exact h rfl

section Loop
variable {cfg : Config} {log : Loc} {base before : Bytes} {w₀ w : World} {s : Files}
  {envs : ℕ → ThreadEnv}

/-- Nothing fails in a turn of the loop. -/
structure CalmTurn (env : ThreadEnv) : Prop where
  request : Calm env.request
  stat : env.stat = {}

/-- The statistics are no part of the store. -/
theorem implements_counted (h : Implements cfg log base w₀ w s) (stat : FDFSStorageStat) :
    Implements cfg log base w₀ { w with stat := stat } s := h.congr rfl rfl rfl rfl

theorem checkAndWrite_calm (v : World) : (checkAndWriteToStatFile {} v).2 = true ∧
    (checkAndWriteToStatFile {} v).1.tree = v.tree ∧
    (checkAndWriteToStatFile {} v).1.cwd = v.cwd ∧
    (checkAndWriteToStatFile {} v).1.fpBinlog = v.fpBinlog ∧
    (checkAndWriteToStatFile {} v).1.continueFlag = v.continueFlag ∧
    (checkAndWriteToStatFile {} v).1.binlogFileSize = v.binlogFileSize ∧
    (checkAndWriteToStatFile {} v).1.killed = v.killed := by
  unfold checkAndWriteToStatFile
  dsimp only
  split_ifs
  · exact ⟨rfl, rfl, rfl, rfl, rfl, rfl, rfl⟩
  · exact ⟨rfl, rfl, rfl, rfl, rfl, rfl, rfl⟩

/-- A world that a request leaves, as the session has it: the files and the log, the replies, and
whether the process is still there. -/
structure Leaves (cfg : Config) (log : Loc) (base before : Bytes) (w₀ : World) (g : Handled)
    (x : Files × List (Answer Bytes)) : Prop where
  implements : Implements cfg log base w₀ g.world x.1
  answered : Answered before g.outbound x.2
  killed : g.world.killed = true ↔ Answer.gone ∈ x.2

theorem serviceLoop_serves {rs : List SentRequest} {fuel count : ℕ} {inb : Inbound}
    {out : Outbound} {as : List (Answer Bytes)} (hfuel : turns inb ≤ fuel)
    (hsmooth : Smooth inb.events) (hpending : inb.pending = rs.flatMap (sentBytes cfg))
    (h : Implements cfg log base w₀ w s) (halive : w.killed = false)
    (hroom : Room (288 * rs.length) w) (hans : Answered before out as) (hgone : Answer.gone ∉ as)
    (hrs : ∀ r ∈ rs, Usable cfg w₀ log r ∧ ((package cfg.groupName r).length : ℤ) < INT_MAX)
    (henv : ∀ i, CalmTurn (envs i))
    (hcalm : ∀ r ∈ serviceLoop cfg envs fuel count inb out w, BetweenRequests r ∧ PeerHeard r) :
    List.Forall₂ (Leaves cfg log base before w₀)
      (handledBy (serviceLoop cfg envs fuel count inb out w))
      (s.session metaName as (rs.map asked)) := by
  induction fuel generalizing rs count inb out w s as with
  | zero => simp [turns] at hfuel
  | succ fuel ih =>
    simp only [serviceLoop] at hcalm ⊢
    rw [if_neg (by simp [h.running])] at hcalm ⊢
    split_ifs at hcalm ⊢ with h0 h1
    · -- a pause between two requests
      have htimeout := (hcalm _ List.mem_cons_self).1
      have hsame := pause_keeps htimeout
      have hless := header_idle_turns h0
      exact ih (by omega) (smooth_rest hsmooth _) (hsame.trans hpending) h halive hroom hans
        hgone hrs fun r hr => hcalm r (List.mem_cons_of_mem _ hr)
    · -- the end of the stream
      cases rs with
      | nil => exact .nil
      | cons r rs =>
        have hone : (tcprecvdata inb sizeofHeader).result = 1 := by
          refine received_of_smooth hsmooth h0 ?_
          have hlong := @length_sentBytes_ge cfg r
          rw [hpending, List.flatMap_cons, List.length_append]
          exact hlong.trans (Nat.le_add_right _ _)
        exact absurd hone h1
    · have hone := not_not.mp h1
      cases rs with
      | nil =>
        obtain ⟨-, -, hlong⟩ := header_received hone
        simp [hpending] at hlong
      | cons r rs =>
        have hless := header_turns hone
        rw [List.flatMap_cons] at hpending
        obtain ⟨husable, hlen⟩ := hrs r List.mem_cons_self
        obtain ⟨hcalmenv, hstat⟩ := henv count
        obtain ⟨hcmd, hn, hbody⟩ :=
          request_received hcalmenv.malloc hsmooth hlen hpending hone
        obtain ⟨hnow, hpeer⟩ := hcalm _ List.mem_cons_self
        simp only [BetweenRequests, serve_body, serve_header, hn] at hnow
        obtain ⟨hrecv, hrest, hsmooth'⟩ := hbody hnow
        have hcounted := implements_counted h (countTotal r.cmd w.stat)
        have hroom' : Room (288 + 288 * rs.length) { w with stat := countTotal r.cmd w.stat } :=
          hroom.mono (by rw [List.length_cons]; push_cast; omega) rfl
        obtain ⟨f, hf⟩ := @handler_sent cfg (envs count).request r
        have hheard := heard_of_peerHeard (by rw [hcmd]; exact hf) hpeer
        rw [hcmd, hn] at hheard
        obtain ⟨f', hf', hserves⟩ := handler_serves hcounted hcalmenv r husable hlen (by omega)
          hroom' hans hrecv hheard
        obtain rfl : f = f' := Option.some.inj (hf.symm.trans hf')
        have hinb := handler_inbound hf (package cfg.groupName r).length
          (tcprecvdata inb sizeofHeader).rest out { w with stat := countTotal r.cmd w.stat }
        have hturns := receiveBody_turns_le (envs count).request r.cmd
          (package cfg.groupName r).length (tcprecvdata inb sizeofHeader).rest
        simp only [serve, hcmd, hn, hf, hstat] at hcalm ⊢
        generalize f (package cfg.groupName r).length (tcprecvdata inb sizeofHeader).rest out
          { w with stat := countTotal r.cmd w.stat } = g at hserves hinb hcalm ⊢
        obtain ⟨himp, hroom, hkilled, hans, hkeeps⟩ := hserves
        rw [← hinb] at hrest hsmooth' hturns
        simp only [handledBy, List.map_cons, Store.session, Option.elim_some]
        refine .cons ⟨himp, hans, ?_⟩ ?_
        · rw [hkilled, List.mem_append, List.mem_singleton]
          exact or_congr (iff_of_false (by simp [halive]) hgone) eq_comm
        by_cases hres : g.result = 0
        · have hgo := hkeeps.mp hres
          have hlives : (s.serve metaName (asked r)).2 ≠ .gone := by
            intro he
            rw [he] at hgo
            cases hgo
          have hgone' : Answer.gone ∉ as ++ [(s.serve metaName (asked r)).2] := by
            simpa [hgone] using hlives.symm
          have halive' : g.world.killed = false := by
            rw [← Bool.not_eq_true, hkilled]
            simp [halive, hlives]
          obtain ⟨hok, htree, hcwd, hfp, hflag, hsize, hkept⟩ := checkAndWrite_calm
            { g.world with stat := countSuccess r.cmd (envs count).now g.world.stat }
          rw [if_pos hgo]
          simp only [hres, ne_eq, not_true_eq_false, if_false, hok, if_true] at hcalm ⊢
          exact ih (by omega) hsmooth' hrest
            (Implements.congr himp htree hcwd hfp hflag) (hkept.trans halive')
            (hroom.mono (le_refl _) hsize) hans hgone'
            (fun r' hr' => hrs r' (List.mem_cons_of_mem _ hr')) fun x hx => hcalm x (List.mem_cons_of_mem _ hx)
        · rw [if_neg (hkeeps.not.mp hres)]
          simp only [hres, ne_eq, not_false_eq_true, if_true]
          exact .nil

end Loop

section Connections
variable {cfg : Config} {log : Loc} {base : Bytes} {w : World}

theorem Ready.implements (h : Ready cfg log base w) :
    Implements cfg log base w w (storeOf cfg w) where
  stream := h.stream
  cwd := rfl
  isDir _ := rfl
  running := h.running
  files _ _ := rfl
  length := h.length
  logged := ⟨[], by simpa using h.content, rfl⟩
  rest _ _ _ := rfl

/-- What the other side reads off a connection are the answers. -/
theorem read_of_answered {out out' : Outbound} {as : List (Answer Bytes)}
    (h : Answered out.sent out' as) :
    (pieces packageSize (out'.sent.drop out.sent.length)).map readReply = messages as := by
  obtain ⟨ps, hsent, hdel, hread⟩ := h.replies
  have hall := pieces_flatten hdel (.inl rfl : Incomplete packageSize [])
  rw [List.append_nil] at hall
  rw [hsent, List.drop_left, hall, hread]

/-- A connection on which requests are sent and nothing fails: the log has room for them, the
stream may arrive in any chunks, no wait for a package ends within it, and the client's next
bytes, or the end of its stream, are there in time when a reply is sent. -/
structure Undisturbed (cfg : Config) (envs : ℕ → ThreadEnv) (log : Loc) (rs : List SentRequest)
    (inb : Inbound) (out : Outbound) (w : World) : Prop where
  room : Room (288 * rs.length) w
  usable : ∀ r ∈ rs, Usable cfg w log r ∧ ((package cfg.groupName r).length : ℤ) < INT_MAX
  turn : ∀ i, CalmTurn (envs i)
  accepting : Accepting out
  smooth : Smooth inb.events
  pending : inb.pending = rs.flatMap (sentBytes cfg)
  between : ∀ r ∈ storageThreadEntrance cfg envs inb out w, BetweenRequests r ∧ PeerHeard r

section Sessions
variable {envs : ℕ → ThreadEnv} {rs : List SentRequest} {inb : Inbound} {out : Outbound}

theorem Undisturbed.serves (h : Undisturbed cfg envs log rs inb out w) {s : Files}
    (himp : Implements cfg log base w w s) (halive : w.killed = false) :
    List.Forall₂ (Leaves cfg log base out.sent w)
      (handledBy (storageThreadEntrance cfg envs inb out w))
      (s.session metaName [] (rs.map asked)) :=
  serviceLoop_serves (le_refl _) h.smooth h.pending himp halive h.room
    ⟨h.accepting, [], by simp, by simp, rfl⟩ List.not_mem_nil h.usable h.turn h.between

/-- For every list of requests of a client that does not wait for the replies, and every way their
stream is cut into chunks: behind each request the thread has served, the files and the log are
those of the store, and what has been sent back are its answers. It serves what a session serves,
and the process has ended where the session has it so. -/
theorem connection_serves_store (hready : Ready cfg log base w)
    (h : Undisturbed cfg envs log rs inb out w) :
    List.Forall₂ (fun (g : Handled) (x : Files × List (Answer Bytes)) =>
        Implements cfg log base w g.world x.1 ∧
          (pieces packageSize (g.outbound.sent.drop out.sent.length)).map readReply =
            messages x.2 ∧ (g.world.killed = true ↔ Answer.gone ∈ x.2))
      (handledBy (storageThreadEntrance cfg envs inb out w))
      ((storeOf cfg w).session metaName [] (rs.map asked)) :=
  (h.serves hready.implements hready.alive).imp fun _ _ hx =>
    ⟨hx.implements, read_of_answered hx.answered, hx.killed⟩

/-- The names whose files a request may change. -/
def changes (r : SentRequest) : List Bytes := (asked r).names metaName

theorem names_asked {name : Bytes} (h : ∀ r ∈ rs, name ∉ changes r) :
    ∀ x ∈ rs.map asked, name ∉ x.names metaName := by
  intro x hx
  obtain ⟨r, hr, rfl⟩ := List.mem_map.mp hx
  exact h r hr

theorem last_of_forall₂ {α β : Type} {R : α → β → Prop} {l : List α} {l' : List β} {b : β}
    (h : List.Forall₂ R l l') (hb : l'.getLast? = some b) : ∃ a, l.getLast? = some a ∧ R a b := by
  induction h with
  | nil => cases hb
  | @cons a b' l l' hr hrest ih =>
    cases hrest with
    | nil =>
      obtain rfl : b' = b := by simpa using hb
      exact ⟨a, rfl, hr⟩
    | cons hr' hrest =>
      rw [List.getLast?_cons_cons] at hb ⊢
      exact ih hb

/-- A download that is served behind an update of the same file gets the bytes of that update,
whatever requests that do not change the file lie between the two. -/
theorem download_reads_update {pre mid : List SentRequest} {filename : Filename 128}
    {filename' : Filename 32} {content : Bytes} (hname : filename'.bytes = filename.bytes)
    (hready : Ready cfg log base w)
    (h : Undisturbed cfg envs log (pre ++ [.syncCopy STORAGE_PROTO_CMD_SYNC_UPDATE_FILE (.inr rfl)
      filename content] ++ mid ++ [.named STORAGE_PROTO_CMD_DOWNLOAD_FILE (.inr (.inl rfl))
        filename']) inb out w)
    (hmid : ∀ r ∈ mid, filename.bytes ∉ changes r)
    (hall : (handledBy (storageThreadEntrance cfg envs inb out w)).length =
      pre.length + mid.length + 2) :
    ∃ g, (handledBy (storageThreadEntrance cfg envs inb out w)).getLast? = some g ∧
      ((pieces packageSize (g.outbound.sent.drop out.sent.length)).map readReply).getLast? =
        some (0, content) := by
  have hserves := h.serves hready.implements hready.alive
  set front := pre ++ [.syncCopy STORAGE_PROTO_CMD_SYNC_UPDATE_FILE (.inr rfl) filename content] ++
    mid with hfront
  have hlast : asked (.named STORAGE_PROTO_CMD_DOWNLOAD_FILE (.inr (.inl rfl)) filename') =
      .read filename.bytes := by
    rw [← hname]
    rfl
  rw [List.map_append, List.map_singleton, hlast] at hserves
  have hlen := hserves.length_eq
  rw [hall] at hlen
  obtain ⟨t, bs, hsession⟩ := session_last (by
    rw [← hlen, List.length_append, List.length_map, hfront]
    simp
    omega)
  obtain ⟨g, hg, -, hans, -⟩ := last_of_forall₂ hserves hsession
  refine ⟨g, hg, ?_⟩
  -- the store behind the update, and behind everything that leaves the file
  have hfile : ((storeOf cfg w).replay metaName (front.map asked)).files filename.bytes =
      some content := by
    rw [hfront, List.map_append, List.map_append, Store.replay, List.foldl_append,
      List.foldl_append]
    refine (files_replay (names_asked hmid)).trans ?_
    exact Function.update_self _ _ _
  have hcontent : [Answer.content content].filter Answer.answered = [.content content] := rfl
  rw [read_of_answered hans, Store.serve, hfile, Option.elim_some, messages, List.filter_append,
    hcontent, List.map_append, List.map_singleton, List.getLast?_concat]
  rfl

end Sessions

/-- The directories and an empty log, open for appending. -/
def servingWorld : World :=
  { World.initial (sampleDirs.setFile sampleLogLoc []) [] with
    fpBinlog := some ⟨sampleLogLoc, true⟩ }

theorem content_makeDir (t : FileTree) (l k : Loc) : (t.makeDir l).content k = t.content k := by
  by_cases hn : t.node l = none ∧ t.isDir l.dropLast = true
  · unfold FileTree.content
    rw [FileTree.node_makeDir hn.2 hn.1]
    by_cases hk : k = l
    · simp [hk, hn.1]
    · simp [hk]
  · rw [FileTree.makeDir, dif_neg fun h => hn ⟨h.2, h.1⟩]

theorem content_sampleDirs (l : Loc) : sampleDirs.content l = none := by
  simp only [sampleDirs, List.foldl_cons, List.foldl_nil, content_makeDir]
  by_cases hl : l = [] <;> simp [FileTree.content, FileTree.empty, hl]

theorem servingWorld_ready : Ready sampleConfig sampleLogLoc [] servingWorld where
  alive := rfl
  stream := rfl
  running := rfl
  content := by decide +kernel
  length name c hp hc := by
    have hnone := content_sampleDirs (placeOf sampleConfig servingWorld name)
    rw [← FileTree.content_setFile_of_ne sampleDirs [] hp.offLog] at hnone
    exact absurd (hnone.symm.trans hc) (by simp)

/-- A copy and a download of it. -/
def copyAndDownload : List SentRequest :=
  [.syncCopy STORAGE_PROTO_CMD_SYNC_UPDATE_FILE (.inr rfl) ⟨ascii "00/00/a", by decide, by decide,
      by decide⟩ (ascii "x"),
    .named STORAGE_PROTO_CMD_DOWNLOAD_FILE (.inr (.inl rfl)) ⟨ascii "00/00/a", by decide, by decide,
      by decide⟩]

/-- Its stream in pieces, behind a pause. -/
def copyAndDownloadStream : Inbound where
  pending := copyAndDownload.flatMap (sentBytes sampleConfig)
  events := [.timeout, .chunk 4, .chunk 20, .chunk 60, .chunk 3]

def calmTurn : ThreadEnv := { request := { errno := ENOENT } }

/-- A client whose connection takes whatever is sent. -/
theorem undisturbed_of_calmTurn {log : Loc} {rs : List SentRequest} {inb : Inbound} {w : World}
    (hroom : Room (288 * rs.length) w) (husable : ∀ r ∈ rs, Usable sampleConfig w log r ∧
      ((package sampleConfig.groupName r).length : ℤ) < INT_MAX) (hsmooth : Smooth inb.events)
    (hpending : inb.pending = rs.flatMap (sentBytes sampleConfig))
    (hbetween : ∀ r ∈ storageThreadEntrance sampleConfig (fun _ => calmTurn) inb ⟨[], []⟩ w,
      BetweenRequests r ∧ PeerHeard r) :
    Undisturbed sampleConfig (fun _ => calmTurn) log rs inb ⟨[], []⟩ w where
  room := hroom
  usable := husable
  turn _ := ⟨⟨rfl, rfl, rfl, rfl, rfl, rfl, ⟨rfl, rfl, rfl, rfl⟩, ⟨rfl, rfl, rfl, rfl⟩⟩, rfl⟩
  accepting e he := by cases he
  smooth := hsmooth
  pending := hpending
  between := hbetween

theorem smooth_copyAndDownload : Smooth copyAndDownloadStream.events := by
  intro e he
  simp [copyAndDownloadStream] at he
  rcases he with rfl | rfl | rfl | rfl | rfl <;> simp

theorem inLayout_sample : InLayout (ascii "00/00/a") :=
  ⟨0, 0, ascii "a", by decide, by decide, by decide, by decide⟩

theorem usable_copyAndDownload {log : Loc} {w : World}
    (hp : Placed sampleConfig w log (ascii "00/00/a"))
    (hm : Placed sampleConfig w log (metaName (ascii "00/00/a"))) :
    ∀ r ∈ copyAndDownload, Usable sampleConfig w log r ∧
      ((package sampleConfig.groupName r).length : ℤ) < INT_MAX := by
  intro r hr
  obtain rfl | rfl : r = copyAndDownload[0] ∨ r = copyAndDownload[1] := by
    simpa [copyAndDownload] using hr
  · exact ⟨⟨hp, by decide +kernel⟩, by decide +kernel⟩
  · exact ⟨⟨hp, hm⟩, by decide +kernel⟩

theorem copyAndDownload_undisturbed : Undisturbed sampleConfig (fun _ => calmTurn) sampleLogLoc
    copyAndDownload copyAndDownloadStream ⟨[], []⟩ servingWorld :=
  undisturbed_of_calmTurn (by constructor <;> decide)
    (usable_copyAndDownload
      ⟨inLayout_sample, by decide +kernel, by decide +kernel, by decide +kernel⟩
      ⟨inLayout_sample.metaName, by decide +kernel, by decide +kernel, by decide +kernel⟩)
    smooth_copyAndDownload rfl (by decide +kernel)

theorem connection_serves_copyAndDownload :
    List.Forall₂ (fun (g : Handled) (x : Files × List (Answer Bytes)) =>
        Implements sampleConfig sampleLogLoc [] servingWorld g.world x.1 ∧
          (pieces packageSize (g.outbound.sent.drop 0)).map readReply = messages x.2 ∧
          (g.world.killed = true ↔ Answer.gone ∈ x.2))
      (handledBy (storageThreadEntrance sampleConfig (fun _ => calmTurn) copyAndDownloadStream
        ⟨[], []⟩ servingWorld))
      ((storeOf sampleConfig servingWorld).session metaName [] (copyAndDownload.map asked)) :=
  connection_serves_store servingWorld_ready copyAndDownload_undisturbed

theorem download_reads_copyAndDownload :
    ∃ g, (handledBy (storageThreadEntrance sampleConfig (fun _ => calmTurn) copyAndDownloadStream
        ⟨[], []⟩ servingWorld)).getLast? = some g ∧
      ((pieces packageSize (g.outbound.sent.drop 0)).map readReply).getLast? =
        some (0, ascii "x") := by
  have hname : (⟨ascii "00/00/a", by decide, by decide, by decide⟩ : Filename 32).bytes =
      (⟨ascii "00/00/a", by decide, by decide, by decide⟩ : Filename 128).bytes := rfl
  exact @download_reads_update _ _ _ _ _ _ _ [] [] _ _ _ hname servingWorld_ready
    copyAndDownload_undisturbed (by simp) (by decide +kernel)

end Connections

end DemoStorage.StoreSessions
