import DemoStorage.ServiceThread

/-!
# Framing of the requests on one connection

Each handler is a receiving part followed by a function of what was received. A handler
that returns 0 has received its body, with one exception: a copy request also returns 0
when its receiving part failed with the error number of an existing file. An upload
receives the size of a pointer whatever its declared length. Where neither happens and no
header read times out between its bytes, every header stands where the declared lengths
put it.
-/

namespace DemoStorage.ConnectionFraming
open ByteStrings PosixFileTree SocketTransfers DaemonState BinlogWriting RequestHandlers
open ServiceThread

def isSyncCopy (cmd : Byte) : Prop :=
  cmd = STORAGE_PROTO_CMD_SYNC_CREATE_FILE ∨ cmd = STORAGE_PROTO_CMD_SYNC_UPDATE_FILE

instance (cmd : Byte) : Decidable (isSyncCopy cmd) := inferInstanceAs (Decidable (_ ∨ _))

/-- How the handler of a command receives its body. -/
def receiveBody (env : RequestEnv) (cmd : Byte) (nInPackLen : ℤ) (inb : Inbound) :
    Inbound × Except Errno Bytes :=
  if cmd = STORAGE_PROTO_CMD_UPLOAD_FILE then recvAllocated env 0 sizeofPointer nInPackLen inb
  else if isSyncCopy cmd then recvAllocated env 34 nInPackLen nInPackLen inb
  else if cmd = STORAGE_PROTO_CMD_SET_METADATA then recvAllocated env 35 nInPackLen nInPackLen inb
  else recvGroupRequest env nInPackLen inb

def allocatedSize (env : RequestEnv) (minLen size nInPackLen : ℤ) : Except Errno ℤ :=
  if nInPackLen ≤ minLen then .error EINVAL
  else if env.mallocFails then .error (errnoOr env.mallocErrno ENOMEM) else .ok size

/-- Size of the body that handler receives, or the status with which it refuses the length. -/
def bodySize (env : RequestEnv) (cmd : Byte) (nInPackLen : ℤ) : Except Errno ℤ :=
  if cmd = STORAGE_PROTO_CMD_UPLOAD_FILE then allocatedSize env 0 sizeofPointer nInPackLen
  else if isSyncCopy cmd then allocatedSize env 34 nInPackLen nInPackLen
  else if cmd = STORAGE_PROTO_CMD_SET_METADATA then allocatedSize env 35 nInPackLen nInPackLen
  else if nInPackLen ≤ FDFS_GROUP_NAME_MAX_LEN then .error EINVAL
  else if sizeofInBuff ≤ nInPackLen then .error EINVAL else .ok nInPackLen

/-- A handler may return 0 on this outcome of its receiving part. -/
def Keepable (env : RequestEnv) (cmd : Byte) (nInPackLen : ℤ) : Except Errno Bytes → Prop
  | .error e => e = 0 ∨ isSyncCopy cmd ∧ e = EEXIST
  | .ok data => cmd = STORAGE_PROTO_CMD_UPLOAD_FILE →
      ∃ u, parseUpload nInPackLen (uploadBuffer env nInPackLen data) = .ok u

section Handlers

private theorem status_of_sent {env : RequestEnv} {sent : ℤ} {status : Errno}
    (h : (if sent ≠ 1 then errnoOr env.sendErrno EPIPE else status) = 0) : status = 0 := by
  split_ifs at h
  · exact absurd h (errnoOr_ne_zero (by decide))
  · exact h

private theorem sendFileReply_eq_zero {env : RequestEnv} {out : Outbound} {status : Errno}
    {fileBuff : Option Bytes} (h : (sendFileReply env out status fileBuff).2 = 0) : status = 0 := by
  simp only [sendFileReply] at h
  split_ifs at h with h1 h2
  · exact absurd h (errnoOr_ne_zero (by decide))
  · exact h
  · exact absurd h (errnoOr_ne_zero (by decide))
  · exact h

theorem parseUpload_error_ne_zero {n : ℤ} {b : Bytes} {e : Errno}
    (h : parseUpload n b = .error e) : e ≠ 0 := by
  simp only [parseUpload] at h
  split_ifs at h <;> cases h <;> decide

/-- The status behind the return value of a copy request. -/
theorem status_of_copy {env : RequestEnv} {sent : ℤ} {status : Errno}
    (h : (if sent ≠ 1 then errnoOr env.sendErrno EPIPE else if status = EEXIST then 0
      else status) = 0) : status = 0 ∨ status = EEXIST := by
  split_ifs at h with h1 h2
  · exact absurd h (errnoOr_ne_zero (by decide))
  · exact .inr h2
  · exact .inl h

private theorem keepable_of_error {env : RequestEnv} {cmd : Byte} {n : ℤ}
    {finish : Except Errno Bytes → Outbound → World → Outbound × World × Errno}
    (hc : cmd ≠ STORAGE_PROTO_CMD_UPLOAD_FILE)
    (h : ∀ e out w, (finish (.error e) out w).2.2 = 0 → e = 0 ∨ isSyncCopy cmd ∧ e = EEXIST)
    (req : Except Errno Bytes) (out : Outbound) (w : World) (h0 : (finish req out w).2.2 = 0) :
    Keepable env cmd n req := by
  cases req with
  | error e => exact h e out w h0
  | ok data => exact fun he => absurd he hc

/-- Every handler is a receiving part and a function of what it received. -/
theorem handler_spec {cfg : Config} {env : RequestEnv} {cmd : Byte}
    {f : ℤ → Inbound → Outbound → World → Handled} (hf : handler cfg env cmd = some f) (n : ℤ) :
    ∃ finish : Except Errno Bytes → Outbound → World → Outbound × World × Errno,
      (∀ inb out w, f n inb out w =
        withBody (receiveBody env cmd n inb) out fun out req => finish req out w) ∧
      ∀ req out w, (finish req out w).2.2 = 0 → Keepable env cmd n req := by
  cases handles_of_handler hf with
  | downloadFile =>
    refine ⟨_, fun inb out w => by rfl, ?_⟩
    exact keepable_of_error (by decide) fun e out w h => .inl (sendFileReply_eq_zero h)
  | getMetadata =>
    refine ⟨_, fun inb out w => by rfl, ?_⟩
    exact keepable_of_error (by decide) fun e out w h => .inl (sendFileReply_eq_zero h)
  | uploadFile =>
    refine ⟨_, fun inb out w => by rfl, ?_⟩
    rintro (e | data) out w h
    · exact .inl (status_of_sent h)
    · intro _
      cases hp : parseUpload n (uploadBuffer env n data) with
      | ok u => exact ⟨u, rfl⟩
      | error e =>
        simp only [Except.bind, hp] at h
        exact absurd (status_of_sent h) (parseUpload_error_ne_zero hp)
  | deleteFile =>
    refine ⟨_, fun inb out w => by rfl, ?_⟩
    exact keepable_of_error (by decide) fun e out w h => .inl (status_of_sent h)
  | syncCreateFile =>
    refine ⟨_, fun inb out w => by rfl, ?_⟩
    exact keepable_of_error (by decide) fun e out w h =>
      (status_of_copy h).imp_right fun he => ⟨.inl rfl, he⟩
  | syncDeleteFile =>
    refine ⟨_, fun inb out w => by rfl, ?_⟩
    exact keepable_of_error (by decide) fun e out w h => .inl (status_of_sent h)
  | syncUpdateFile =>
    refine ⟨_, fun inb out w => by rfl, ?_⟩
    exact keepable_of_error (by decide) fun e out w h =>
      (status_of_copy h).imp_right fun he => ⟨.inr rfl, he⟩
  | setMetadata =>
    refine ⟨_, fun inb out w => by rfl, ?_⟩
    exact keepable_of_error (by decide) fun e out w h => .inl (status_of_sent h)

theorem handler_inbound {cfg : Config} {env : RequestEnv} {cmd : Byte}
    {f : ℤ → Inbound → Outbound → World → Handled} (hf : handler cfg env cmd = some f) (n : ℤ)
    (inb : Inbound) (out : Outbound) (w : World) :
    (f n inb out w).inbound = (receiveBody env cmd n inb).1 := by
  obtain ⟨finish, heq, -⟩ := handler_spec hf n
  rw [heq, withBody_inbound]

theorem handler_outcome_congr {cfg : Config} {env : RequestEnv} {cmd : Byte}
    {f : ℤ → Inbound → Outbound → World → Handled} (hf : handler cfg env cmd = some f) {n : ℤ}
    {inb inb' : Inbound} {out : Outbound}
    (h : (receiveBody env cmd n inb).2 = (receiveBody env cmd n inb').2)
    (hwait : out.awaiting (receiveBody env cmd n inb).1 =
      out.awaiting (receiveBody env cmd n inb').1) (w : World) :
    (f n inb out w).outcome = (f n inb' out w).outcome := by
  obtain ⟨finish, heq, -⟩ := handler_spec hf n
  rw [heq, heq, withBody_outcome, withBody_outcome, h, hwait]

theorem handler_keepable {cfg : Config} {env : RequestEnv} {cmd : Byte}
    {f : ℤ → Inbound → Outbound → World → Handled} (hf : handler cfg env cmd = some f) {n : ℤ}
    {inb : Inbound} {out : Outbound} {w : World} (h : (f n inb out w).result = 0) :
    Keepable env cmd n (receiveBody env cmd n inb).2 := by
  obtain ⟨finish, heq, hk⟩ := handler_spec hf n
  rw [heq] at h
  exact hk _ _ w h

end Handlers

section Receiving

theorem tcprecvdata_pending (inb : Inbound) (size : ℤ) :
    inb.pending = (tcprecvdata inb size).data ++ (tcprecvdata inb size).rest.pending :=
  recvLoop_pending _ _ _

theorem tcprecvdata_turns_le (inb : Inbound) (size : ℤ) :
    turns (tcprecvdata inb size).rest ≤ turns inb := by
  have hp := congrArg List.length (tcprecvdata_pending inb size)
  have he := (recvLoop_events_le inb.events inb.pending size.toNat).1
  simp only [List.length_append] at hp
  simp only [turns, tcprecvdata] at hp he ⊢
  omega

theorem receive_error_ne_zero {env : RequestEnv} {inb : Inbound} {size : ℤ} {e : Errno}
    (h : (receive env inb size).2 = .error e) : e ≠ 0 := by
  simp only [receive] at h
  split_ifs at h
  cases h
  exact errnoOr_ne_zero (by decide)

theorem receive_ok {env : RequestEnv} {inb : Inbound} {size : ℤ} {data : Bytes}
    (h : (receive env inb size).2 = .ok data) :
    inb.pending = data ++ (receive env inb size).1.pending ∧ data.length = size.toNat := by
  simp only [receive] at h
  split_ifs at h with h1
  cases h
  exact ⟨tcprecvdata_pending inb size, (recvLoop_length _ _ _).2 (not_not.mp h1)⟩

theorem receiveBody_eq (env : RequestEnv) (cmd : Byte) (n : ℤ) (inb : Inbound) :
    receiveBody env cmd n inb = match bodySize env cmd n with
      | .error e => (inb, .error e)
      | .ok size => receive env inb size := by
  unfold receiveBody bodySize recvAllocated recvGroupRequest allocatedSize
  split_ifs <;> rfl

theorem bodySize_error_ne_zero {env : RequestEnv} {cmd : Byte} {n : ℤ} {e : Errno}
    (h : bodySize env cmd n = .error e) : e ≠ 0 := by
  have hmalloc : errnoOr env.mallocErrno ENOMEM ≠ 0 := errnoOr_ne_zero (by decide)
  have hEINVAL : EINVAL ≠ 0 := by decide
  unfold bodySize allocatedSize at h
  split_ifs at h <;> cases h <;> assumption

/-- A body has the declared length, except that of an upload. -/
theorem bodySize_ok {env : RequestEnv} {cmd : Byte} {n size : ℤ}
    (h : bodySize env cmd n = .ok size) : 0 ≤ size ∧
      size = if cmd = STORAGE_PROTO_CMD_UPLOAD_FILE then sizeofPointer else n := by
  have hpos : (0 : ℤ) ≤ sizeofPointer := by decide
  have hgroup : (0 : ℤ) ≤ FDFS_GROUP_NAME_MAX_LEN := by decide
  unfold bodySize allocatedSize at h
  split_ifs at h <;> cases h
  · simp_all
  all_goals
    exact ⟨by omega, by rw [if_neg ‹¬cmd = STORAGE_PROTO_CMD_UPLOAD_FILE›]⟩

theorem receiveBody_turns_le (env : RequestEnv) (cmd : Byte) (n : ℤ) (inb : Inbound) :
    turns (receiveBody env cmd n inb).1 ≤ turns inb := by
  rw [receiveBody_eq]
  split
  · exact le_refl _
  · exact tcprecvdata_turns_le inb _

theorem receiveBody_error_ne_zero {env : RequestEnv} {cmd : Byte} {n : ℤ} {inb : Inbound}
    {e : Errno} (h : (receiveBody env cmd n inb).2 = .error e) : e ≠ 0 := by
  rw [receiveBody_eq] at h
  split at h
  · rename_i hs
    cases h
    exact bodySize_error_ne_zero hs
  · exact receive_error_ne_zero h

theorem receiveBody_ok {env : RequestEnv} {cmd : Byte} {n : ℤ} {inb : Inbound} {data : Bytes}
    (h : (receiveBody env cmd n inb).2 = .ok data) :
    inb.pending = data ++ (receiveBody env cmd n inb).1.pending ∧
      (data.length : ℤ) = if cmd = STORAGE_PROTO_CMD_UPLOAD_FILE then sizeofPointer else n := by
  rw [receiveBody_eq] at h ⊢
  split at h
  · cases h
  · rename_i size hs
    obtain ⟨hpos, hsize⟩ := bodySize_ok hs
    obtain ⟨hd, hl⟩ := receive_ok h
    refine ⟨hd, ?_⟩
    rw [← hsize]
    omega

/-- On an ideal network a reply never waits. -/
theorem receiveBody_ideal_heard (env : RequestEnv) (cmd : Byte) (n : ℤ) (pending : Bytes) :
    (receiveBody env cmd n ⟨pending, []⟩).1.Heard := by
  rw [receiveBody_eq]
  split
  · exact .of_nil rfl
  · exact .of_nil (tcprecvdata_ideal_rest pending _)

end Receiving

section Loop
variable {cfg : Config} {envs : ℕ → ThreadEnv}

theorem header_idle_turns {inb : Inbound} (h : (tcprecvdata inb sizeofHeader).result = 0) :
    turns (tcprecvdata inb sizeofHeader).rest < turns inb := by
  have hp := congrArg List.length (tcprecvdata_pending inb sizeofHeader)
  have he := (recvLoop_events_le inb.events inb.pending sizeofHeader.toNat).2 h
  simp only [List.length_append] at hp
  simp only [turns, tcprecvdata] at hp he ⊢
  omega

theorem header_received {inb : Inbound} (h : (tcprecvdata inb sizeofHeader).result = 1) :
    (tcprecvdata inb sizeofHeader).data = inb.pending.take 11 ∧
      (tcprecvdata inb sizeofHeader).rest.pending = inb.pending.drop 11 ∧
      11 ≤ inb.pending.length :=
  tcprecvdata_received h

/-- The body of a served request lies behind its header, which took eleven bytes. -/
theorem header_turns {inb : Inbound} (h : (tcprecvdata inb sizeofHeader).result = 1) :
    turns (tcprecvdata inb sizeofHeader).rest < turns inb := by
  obtain ⟨-, hd, hl⟩ := header_received h
  have he := (recvLoop_events_le inb.events inb.pending sizeofHeader.toNat).1
  simp only [turns, hd, List.length_drop]
  simp only [tcprecvdata] at he ⊢
  omega

/-- When the loop goes on behind a request, its handler returned 0. -/
theorem serve_continues {env : ThreadEnv} {start body inb' : Inbound} {header : TrackerHeader}
    {out out' : Outbound} {w w' : World}
    (h : (serve cfg env start body header out w).2 = some (inb', out', w')) :
    ∃ g, (serve cfg env start body header out w).1.handled = some g ∧ g.result = 0 ∧
      inb' = g.inbound := by
  simp only [serve] at h ⊢
  split at h
  · cases h
  · split_ifs at h with h0 h1
    cases h
    exact ⟨_, by simp_all, not_not.mp h0, rfl⟩

theorem serve_inbound {env : ThreadEnv} {start body : Inbound} {header : TrackerHeader}
    {out : Outbound} {w : World} {g : Handled}
    (h : (serve cfg env start body header out w).1.handled = some g) :
    g.inbound = (receiveBody env.request header.cmd header.nInPackLen body).1 := by
  simp only [serve] at h
  split at h
  · cases h
  · rename_i f hf
    cases h
    exact handler_inbound hf _ _ _ _

theorem serve_turns {env : ThreadEnv} {start body inb' : Inbound} {header : TrackerHeader}
    {out out' : Outbound} {w w' : World}
    (h : (serve cfg env start body header out w).2 = some (inb', out', w')) :
    turns inb' ≤ turns body := by
  obtain ⟨g, hg, -, rfl⟩ := serve_continues h
  rw [serve_inbound hg]
  exact receiveBody_turns_le _ _ _ _

/-- With enough turns allowed the bound no longer shows. -/
theorem serviceLoop_enough {fuel fuel' : ℕ} {inb : Inbound} (h : turns inb ≤ fuel)
    (h' : turns inb ≤ fuel') (count : ℕ) (out : Outbound) (w : World) :
    serviceLoop cfg envs fuel count inb out w = serviceLoop cfg envs fuel' count inb out w := by
  induction fuel generalizing fuel' count inb out w with
  | zero => simp [turns] at h
  | succ fuel ih =>
    obtain _ | fuel' := fuel'
    · simp [turns] at h'
    · simp only [serviceLoop]
      split_ifs with hc h0 h1
      · rfl
      · have ht := header_idle_turns h0
        exact congrArg _ (ih (by omega) (by omega) count out w)
      · rfl
      · have ht := header_turns (not_not.mp h1)
        congr 1
        split
        · rfl
        · rename_i inb' out' w' hs
          have hb := serve_turns hs
          exact ih (by omega) (by omega) _ _ _

end Loop

/-- Behind the body of a request that has a handler, its peer is heard from again in time: a
reply is sent only then. -/
def PeerHeard : Round → Prop
  | .idle _ _ => True
  | .request q => q.handled.isSome = true →
      (receiveBody q.env.request q.header.cmd q.header.nInPackLen q.body).1.Heard

instance : DecidablePred PeerHeard
  | .idle _ _ => isTrue trivial
  | .request q => inferInstanceAs (Decidable (q.handled.isSome = true →
      (receiveBody q.env.request q.header.cmd q.header.nInPackLen q.body).1.Heard))

section Framing

/-- A handler that returned 0 consumed a body of exactly the declared length. -/
def Consumed (q : Request) : Prop :=
  ∀ h, q.handled = some h → h.result = 0 →
    ∃ b, q.body.pending = b ++ h.inbound.pending ∧ (b.length : ℤ) = q.header.nInPackLen

/-- Sum of header size and declared length over the requests of some rounds. -/
def declaredTotal : List Round → ℤ
  | [] => 0
  | .idle _ _ :: rs => declaredTotal rs
  | .request q :: rs => sizeofHeader + q.header.nInPackLen + declaredTotal rs

/-- The header of a request is what the stream holds at an offset. -/
def HeaderAt (stream : Bytes) (offset : ℤ) (q : Request) : Prop :=
  ∃ k : ℕ, (k : ℤ) = offset ∧ k + 11 ≤ stream.length ∧ q.start.pending = stream.drop k ∧
    q.header = decodeHeader ((stream.drop k).take 11)

/-- Bodies are consumed exactly and headers decoded at the sum of what was declared. -/
structure Framed (stream : Bytes) (rounds : List Round) : Prop where
  consumed : ∀ q, .request q ∈ rounds → Consumed q
  header : ∀ rs q rs', rounds = rs ++ .request q :: rs' → HeaderAt stream (declaredTotal rs) q

/-- The condition on a request: an upload that passes its length checks declares the size of
a pointer, and a copy request does not fail to receive its body with the error number of an
existing file. -/
def RequestInStep (q : Request) : Prop :=
  let n := q.header.nInPackLen
  let req := (receiveBody q.env.request q.header.cmd n q.body).2
  let parsed := req.bind fun data => parseUpload n (uploadBuffer q.env.request n data)
  (q.header.cmd = STORAGE_PROTO_CMD_UPLOAD_FILE → n = sizeofPointer ∨ parsed.toBool = false) ∧
  (isSyncCopy q.header.cmd → req ≠ .error EEXIST)

instance (q : Request) : Decidable (RequestInStep q) := inferInstanceAs (Decidable (_ ∧ _))

/-- The condition on one turn of the loop; a header read times out at once or not at all. -/
def InStep : Round → Prop
  | .idle start _ => start.events.head? = some .timeout
  | .request q => RequestInStep q

instance : DecidablePred InStep
  | .idle start _ => inferInstanceAs (Decidable (start.events.head? = some .timeout))
  | .request q => inferInstanceAs (Decidable (RequestInStep q))

/-- A request in step whose handler returned 0 leaves the stream behind its body. -/
theorem consumed_of_inStep {cfg : Config} {env : ThreadEnv} {start body : Inbound}
    {header : TrackerHeader} {out : Outbound} {w : World}
    (h : RequestInStep (serve cfg env start body header out w).1) :
    Consumed (serve cfg env start body header out w).1 := by
  intro g hg h0
  have hinb := serve_inbound hg
  simp only [serve] at h hg ⊢
  split at hg
  · cases hg
  · rename_i f hf
    cases hg
    obtain ⟨hup, hsync⟩ := h
    simp only [hf] at hup hsync ⊢
    have hk := handler_keepable hf h0
    rw [hinb]
    cases hreq : (receiveBody env.request header.cmd header.nInPackLen body).2 with
    | error e =>
      rw [hreq] at hk
      obtain he | ⟨hs, he⟩ := hk
      · exact absurd he (receiveBody_error_ne_zero hreq)
      · exact absurd (he ▸ hreq) (hsync hs)
    | ok data =>
      obtain ⟨hd, hl⟩ := receiveBody_ok hreq
      refine ⟨data, hd, ?_⟩
      split_ifs at hl with hc
      · obtain h8 | hno := hup hc
        · rw [hl, h8]
        · rw [hreq] at hk hno
          obtain ⟨u, hu⟩ := hk hc
          simp [Except.bind, hu, Except.toBool] at hno
      · exact hl

theorem HeaderAt.skip {stream : Bytes} {k : ℕ} {offset : ℤ} {q : Request} (hk : k ≤ stream.length)
    (h : HeaderAt (stream.drop k) offset q) : HeaderAt stream (k + offset) q := by
  obtain ⟨j, rfl, hl, hp, hh⟩ := h
  rw [List.length_drop] at hl
  rw [List.drop_drop] at hp hh
  exact ⟨k + j, by push_cast; rfl, by omega, hp, hh⟩

theorem Framed.nil (stream : Bytes) : Framed stream [] := ⟨by simp, by simp⟩

theorem Framed.idle {stream : Bytes} {rounds : List Round} (h : Framed stream rounds)
    (start : Inbound) (stored : Bytes) : Framed stream (.idle start stored :: rounds) := by
  refine ⟨fun q hq => h.consumed q (by simpa using hq), fun rs q rs' he => ?_⟩
  cases rs with
  | nil => simp at he
  | cons r rs =>
    simp only [List.cons_append, List.cons.injEq] at he
    obtain ⟨rfl, he⟩ := he
    exact h.header rs q rs' he

/-- A request in front of a framed remainder; `k` is where the remainder starts. -/
theorem Framed.request {stream : Bytes} {q : Request} {rounds : List Round}
    (hq : HeaderAt stream 0 q) (hc : Consumed q)
    (h : rounds = [] ∨ ∃ k : ℕ, (k : ℤ) = sizeofHeader + q.header.nInPackLen ∧
      k ≤ stream.length ∧ Framed (stream.drop k) rounds) :
    Framed stream (.request q :: rounds) := by
  refine ⟨fun q' hq' => ?_, fun rs q' rs' he => ?_⟩
  · rcases List.mem_cons.mp hq' with he | hm
    · cases he
      exact hc
    · obtain rfl | ⟨k, -, -, hf⟩ := h
      · cases hm
      · exact hf.consumed q' hm
  · cases rs with
    | nil =>
      simp only [List.nil_append, List.cons.injEq, Round.request.injEq] at he
      obtain ⟨rfl, -⟩ := he
      exact hq
    | cons r rs =>
      simp only [List.cons_append, List.cons.injEq] at he
      obtain ⟨rfl, he⟩ := he
      obtain rfl | ⟨k, hk, hle, hf⟩ := h
      · simp at he
      · have := (hf.header rs q' rs' he).skip hle
        rwa [hk] at this

@[simp] theorem serve_header (cfg : Config) (env : ThreadEnv) (start body : Inbound)
    (header : TrackerHeader) (out : Outbound) (w : World) :
    (serve cfg env start body header out w).1.header = header := by
  simp only [serve]
  split <;> rfl

@[simp] theorem serve_start (cfg : Config) (env : ThreadEnv) (start body : Inbound)
    (header : TrackerHeader) (out : Outbound) (w : World) :
    (serve cfg env start body header out w).1.start = start := by
  simp only [serve]
  split <;> rfl

@[simp] theorem serve_env (cfg : Config) (env : ThreadEnv) (start body : Inbound)
    (header : TrackerHeader) (out : Outbound) (w : World) :
    (serve cfg env start body header out w).1.env = env := by
  simp only [serve]
  split <;> rfl

@[simp] theorem serve_body (cfg : Config) (env : ThreadEnv) (start body : Inbound)
    (header : TrackerHeader) (out : Outbound) (w : World) :
    (serve cfg env start body header out w).1.body = body := by
  simp only [serve]
  split <;> rfl

private theorem idle_in_step {inb : Inbound} (h : inb.events.head? = some .timeout) :
    (tcprecvdata inb sizeofHeader).rest.pending = inb.pending := by
  obtain ⟨pending, evs⟩ := inb
  cases evs with
  | nil => cases h
  | cons e evs =>
    obtain rfl : e = .timeout := by simpa using h
    rfl

theorem serviceLoop_framed {cfg : Config} {envs : ℕ → ThreadEnv} {fuel count : ℕ} {inb : Inbound}
    {out : Outbound} {w : World}
    (h : ∀ r ∈ serviceLoop cfg envs fuel count inb out w, InStep r) :
    Framed inb.pending (serviceLoop cfg envs fuel count inb out w) := by
  induction fuel generalizing count inb out w with
  | zero => exact .nil _
  | succ fuel ih =>
    simp only [serviceLoop] at h ⊢
    split_ifs at h ⊢ with hc h0 h1
    · exact .nil _
    · have hi := ih fun r hr => h r (List.mem_cons_of_mem _ hr)
      rw [idle_in_step (h _ List.mem_cons_self)] at hi
      exact hi.idle _ _
    · exact .nil _
    · obtain ⟨hd, hr, hl⟩ := header_received (not_not.mp h1)
      generalize hs : serve cfg (envs count) inb (tcprecvdata inb sizeofHeader).rest
        (decodeHeader (tcprecvdata inb sizeofHeader).data) out w = s at h ⊢
      have hcons : Consumed s.1 := by
        have := h _ List.mem_cons_self
        rw [← hs] at this ⊢
        exact consumed_of_inStep this
      refine .request ⟨0, rfl, by omega, ?_, ?_⟩ hcons ?_
      · simp [← hs]
      · simp [← hs, hd]
      · split at h
        · exact .inl rfl
        · rename_i inb' out' w' hgo
          have hi := ih fun r hr => h r (List.mem_cons_of_mem _ hr)
          rw [← hs] at hgo hcons
          obtain ⟨g, hg, h0, rfl⟩ := serve_continues hgo
          obtain ⟨b, hb, hn⟩ := hcons g hg h0
          simp only [serve_body, serve_header, hr] at hb hn
          have hlen := congrArg List.length hb
          simp only [List.length_drop, List.length_append] at hlen
          refine .inr ⟨11 + b.length, ?_, by omega, ?_⟩
          · rw [← hs, serve_header, ← hn]
            simp [sizeofHeader]
          · rw [← List.drop_drop, hb, List.drop_left]
            exact hi

/-- In every run whose turns are in step, requests are framed by what they declare. -/
theorem storageThreadEntrance_framed (cfg : Config) (envs : ℕ → ThreadEnv) (inb : Inbound)
    (out : Outbound) (w : World)
    (h : ∀ r ∈ storageThreadEntrance cfg envs inb out w, InStep r) :
    Framed inb.pending (storageThreadEntrance cfg envs inb out w) :=
  serviceLoop_framed h

/-- Two deletions of an absent file, read off a fragmented stream. -/
def twoDeletes : Inbound where
  pending := ascii "12" ++ List.replicate 7 0 ++ [STORAGE_PROTO_CMD_SYNC_DELETE_FILE, 0] ++
    ascii "g" ++ List.replicate 15 0 ++ ascii "zz" ++
    ascii "12" ++ List.replicate 7 0 ++ [STORAGE_PROTO_CMD_SYNC_DELETE_FILE, 0] ++
    ascii "g" ++ List.replicate 15 0 ++ ascii "zz"
  events := [.timeout, .chunk 3, .chunk 6, .chunk 20, .timeout]

theorem storageThreadEntrance_framed_twoDeletes : Framed twoDeletes.pending
    (storageThreadEntrance sampleConfig (fun _ => {}) twoDeletes ⟨[], []⟩ sampleWorld) :=
  storageThreadEntrance_framed _ _ _ _ _ (by decide +kernel)

/-- Executable part of `Consumed`: how many bytes a handler that returned 0 took. -/
def consumedOk : Round → Bool
  | .idle _ _ => true
  | .request q => match q.handled with
    | none => true
    | some h => h.result ≠ 0 ||
      (q.body.pending.length : ℤ) - h.inbound.pending.length = q.header.nInPackLen

theorem Framed.all_consumedOk {stream : Bytes} {rounds : List Round} (h : Framed stream rounds) :
    rounds.all consumedOk = true := by
  rw [List.all_eq_true]
  rintro (_ | q) hq
  · rfl
  · have hc := h.consumed q hq
    simp only [consumedOk]
    split
    · rfl
    · rename_i g hg
      by_cases h0 : g.result = 0
      · obtain ⟨b, hb, hn⟩ := hc g hg h0
        have := congrArg List.length hb
        rw [List.length_append] at this
        simp only [h0, Bool.or_eq_true, decide_eq_true_eq]
        exact .inr (by omega)
      · simp [h0]

/-- A copy request that declares forty bytes and stops behind five of them. -/
def stalledCopy : Inbound where
  pending := ascii "28" ++ List.replicate 7 0 ++ [STORAGE_PROTO_CMD_SYNC_CREATE_FILE, 0] ++
    ascii "short" ++ List.replicate 9 0 ++ [TRACKER_PROTO_CMD_STORAGE_QUIT, 0]
  events := [.chunk 10, .chunk 4, .timeout]

/-- The body read times out with the error number of an existing file in `errno`. -/
def staleErrno (_ : ℕ) : ThreadEnv := { request := { errno := EEXIST } }

theorem stalledCopy_not_framed : ¬ Framed stalledCopy.pending
    (storageThreadEntrance sampleConfig staleErrno stalledCopy ⟨[], []⟩ sampleWorld) :=
  fun h => absurd h.all_consumedOk (by decide +kernel)

end Framing
end DemoStorage.ConnectionFraming
