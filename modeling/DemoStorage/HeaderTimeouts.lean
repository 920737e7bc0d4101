import DemoStorage.ConnectionFraming

/-!
# Headers under different schedules of one stream

A schedule is what the successive waits and reads of a connection do. Fragmentation never
shows: a transfer that does not time out stores what an ideal network would have delivered.
A header read that times out behind its first byte loses what it had stored, since the loop
starts over with an empty header; and a reply waits for the peer's next bytes or its end, so
that a pause behind a request ends the connection. Where neither happens every schedule
decodes the headers that the ideal network decodes.
-/

namespace DemoStorage.HeaderTimeouts
open ByteStrings PosixFileTree SocketTransfers DaemonState BinlogWriting RequestHandlers
open ServiceThread ConnectionFraming

def headers (rounds : List Round) : List TrackerHeader :=
  rounds.filterMap fun
    | .idle _ _ => none
    | .request q => some q.header

/-- The read of a request's body does not time out. -/
def BodyArrives : Round → Prop
  | .idle _ _ => True
  | .request q => ∀ size, bodySize q.env.request q.header.cmd q.header.nInPackLen = .ok size →
      (tcprecvdata q.body size).result ≠ 0

instance : DecidablePred BodyArrives
  | .idle _ _ => isTrue trivial
  | .request q => match h : bodySize q.env.request q.header.cmd q.header.nInPackLen with
    | .error e => isTrue (by simp [BodyArrives, h])
    | .ok size => decidable_of_iff ((tcprecvdata q.body size).result ≠ 0) (by simp [BodyArrives, h])

/-- A header read that times out does so before its first byte. -/
def HeaderWhole : Round → Prop
  | .idle start _ => start.events.head? = some .timeout
  | .request _ => True

instance : DecidablePred HeaderWhole
  | .idle start _ => inferInstanceAs (Decidable (start.events.head? = some .timeout))
  | .request _ => isTrue trivial

/-- The whole stream is delivered: no transfer fails and no body read times out. -/
structure Delivered (cfg : Config) (envs : ℕ → ThreadEnv) (inb : Inbound) (out : Outbound)
    (w : World) : Prop where
  smooth : Smooth inb.events
  bodies : ∀ r ∈ storageThreadEntrance cfg envs inb out w, BodyArrives r

/-- The same stream on a network that delivers everything at once. -/
def ideal (inb : Inbound) : Inbound := ⟨inb.pending, []⟩

@[simp] theorem ideal_pending (inb : Inbound) : (ideal inb).pending = inb.pending := rfl

/-- A transfer that does not time out is the ideal transfer. -/
theorem tcprecvdata_ideal {inb : Inbound} (h : Smooth inb.events) {size : ℤ}
    (h0 : (tcprecvdata inb size).result ≠ 0) :
    tcprecvdata (ideal inb) size =
      ⟨(tcprecvdata inb size).result, (tcprecvdata inb size).data,
        ideal (tcprecvdata inb size).rest⟩ := by
  obtain ⟨h1, h2, h3⟩ := recvLoop_eq_ideal h inb.pending size.toNat h0
  have he := tcprecvdata_ideal_rest inb.pending size
  simp only [tcprecvdata, ideal] at he ⊢
  rw [h1, h2, h3]
  exact Received.ext rfl rfl (Inbound.ext rfl he)

theorem tcprecvdata_smooth {inb : Inbound} (h : Smooth inb.events) (size : ℤ) :
    Smooth (tcprecvdata inb size).rest.events := recvLoop_smooth_rest h _ _

theorem receiveBody_ideal {env : RequestEnv} {cmd : Byte} {n : ℤ} {inb : Inbound}
    (h : Smooth inb.events)
    (h0 : ∀ size, bodySize env cmd n = .ok size → (tcprecvdata inb size).result ≠ 0) :
    receiveBody env cmd n (ideal inb) =
      (ideal (receiveBody env cmd n inb).1, (receiveBody env cmd n inb).2) := by
  rw [receiveBody_eq, receiveBody_eq]
  split
  · rfl
  · rename_i size hs
    simp only [receive, tcprecvdata_ideal h (h0 size hs)]

theorem receiveBody_smooth {inb : Inbound} (h : Smooth inb.events) (env : RequestEnv) (cmd : Byte)
    (n : ℤ) : Smooth (receiveBody env cmd n inb).1.events := by
  rw [receiveBody_eq]
  split
  · exact h
  · exact tcprecvdata_smooth h _

/-- Whether and in which state the loop goes on depends on the body that was received, and on
what a reply waits for. -/
theorem serve_congr {cfg : Config} {env : ThreadEnv} {header : TrackerHeader}
    {body body' : Inbound} {out : Outbound} {w : World} (start start' : Inbound)
    (h : (receiveBody env.request header.cmd header.nInPackLen body).2 =
      (receiveBody env.request header.cmd header.nInPackLen body').2)
    (hwait : (serve cfg env start body header out w).1.handled.isSome = true →
      out.awaiting (receiveBody env.request header.cmd header.nInPackLen body).1 =
        out.awaiting (receiveBody env.request header.cmd header.nInPackLen body').1) :
    (serve cfg env start body header out w).2.map Prod.snd =
      (serve cfg env start' body' header out w).2.map Prod.snd := by
  simp only [serve] at hwait ⊢
  split
  · rfl
  · rename_i f hf
    simp only [hf, Option.isSome_some, forall_const] at hwait
    have ho := handler_outcome_congr hf h hwait { w with stat := countTotal header.cmd w.stat }
    simp only [Handled.outcome, Prod.mk.injEq] at ho
    obtain ⟨h1, h2, h3⟩ := ho
    simp only [h1, h2, h3]
    split_ifs <;> rfl

/-- When the loop goes on, the connection stands behind the body of the request. -/
theorem serve_inbound_eq {cfg : Config} {env : ThreadEnv} {header : TrackerHeader}
    {start body inb' : Inbound} {out out' : Outbound} {w w' : World}
    (h : (serve cfg env start body header out w).2 = some (inb', out', w')) :
    inb' = (receiveBody env.request header.cmd header.nInPackLen body).1 := by
  obtain ⟨g, hg, -, rfl⟩ := serve_continues h
  exact serve_inbound hg

/-- The turn of a request on the ideal network follows the turn on a delivering schedule. -/
theorem serve_ideal {cfg : Config} {env : ThreadEnv} {header : TrackerHeader}
    {start body : Inbound} {out : Outbound} {w : World} (start' : Inbound)
    (h : Smooth body.events)
    (h0 : ∀ size, bodySize env.request header.cmd header.nInPackLen = .ok size →
      (tcprecvdata body size).result ≠ 0)
    (hheard : PeerHeard (.request (serve cfg env start body header out w).1)) :
    (serve cfg env start' (ideal body) header out w).2 =
      (serve cfg env start body header out w).2.map fun c => (ideal c.1, c.2) := by
  have hb := receiveBody_ideal h h0
  have hc := serve_congr (w := w) start start' (congrArg Prod.snd hb).symm fun hs => by
    have hbody := hheard hs
    simp only [serve_env, serve_header, serve_body] at hbody
    rw [Outbound.awaiting_heard hbody, hb, Outbound.awaiting_heard (.of_nil rfl)]
  rcases h1 : (serve cfg env start body header out w).2 with _ | ⟨inb', c⟩
  · rw [h1] at hc
    simpa using hc.symm
  · rw [h1] at hc
    obtain ⟨⟨inb'', c'⟩, h2, h3⟩ := Option.map_eq_some_iff.mp hc.symm
    rw [h2, serve_inbound_eq h1, serve_inbound_eq h2, hb]
    simp_all

private theorem idle_whole {inb : Inbound} (h : inb.events.head? = some .timeout) :
    ideal (tcprecvdata inb sizeofHeader).rest = ideal inb := by
  obtain ⟨pending, evs⟩ := inb
  cases evs with
  | nil => cases h
  | cons e evs =>
    obtain rfl : e = .timeout := by simpa using h
    rfl

/-- The headers decoded on a delivering schedule are those of the ideal network. -/
theorem headers_eq_ideal {cfg : Config} {envs : ℕ → ThreadEnv} {fuel fuel' count : ℕ}
    {inb : Inbound} {out : Outbound} {w : World} (hf : turns inb ≤ fuel)
    (hf' : turns (ideal inb) ≤ fuel') (hsmooth : Smooth inb.events)
    (h : ∀ r ∈ serviceLoop cfg envs fuel count inb out w,
      BodyArrives r ∧ HeaderWhole r ∧ PeerHeard r) :
    headers (serviceLoop cfg envs fuel count inb out w) =
      headers (serviceLoop cfg envs fuel' count (ideal inb) out w) := by
  induction fuel generalizing fuel' count inb out w with
  | zero => simp [turns] at hf
  | succ fuel ih =>
    obtain _ | fuel' := fuel'
    · simp [turns] at hf'
    by_cases h0 : (tcprecvdata inb sizeofHeader).result = 0
    · by_cases hc : w.continueFlag = false
      · simp [serviceLoop, hc]
      · simp only [serviceLoop, hc, h0, if_true] at h
        have hi := idle_whole (h _ List.mem_cons_self).2.1
        have ht := header_idle_turns h0
        have := @ih (fuel' + 1) count (tcprecvdata inb sizeofHeader).rest out w (by omega)
          (hi ▸ hf') (tcprecvdata_smooth hsmooth _) fun r hr => h r (List.mem_cons_of_mem _ hr)
        rw [hi] at this
        rw [← this, serviceLoop]
        simp [hc, h0, headers]
    · have hh := tcprecvdata_ideal hsmooth h0
      simp only [serviceLoop, hh, h0, if_false] at h ⊢
      split_ifs at h ⊢ with hc h1
      · rfl
      · rfl
      · obtain ⟨hb, -, hheard⟩ := h _ List.mem_cons_self
        have hs := tcprecvdata_smooth hsmooth sizeofHeader
        have ht := header_turns (not_not.mp h1)
        have ht' : turns (ideal (tcprecvdata inb sizeofHeader).rest) < turns (ideal inb) := by
          have hr : (tcprecvdata (ideal inb) sizeofHeader).result = 1 := by
            rw [hh]
            exact not_not.mp h1
          have := header_turns hr
          rwa [hh] at this
        generalize (tcprecvdata inb sizeofHeader).rest = body at *
        generalize decodeHeader (tcprecvdata inb sizeofHeader).data = header at *
        simp only [BodyArrives, serve_header, serve_body, serve_env] at hb
        have hgo := serve_ideal (ideal inb) hs hb hheard
        simp only [headers, List.filterMap_cons, serve_header, List.cons.injEq, true_and]
        rw [hgo]
        rcases h2 : (serve cfg (envs count) inb body header out w).2 with _ | ⟨inb', out', w'⟩
        · rfl
        · simp only [h2] at h
          have hle := serve_turns h2
          have hin := serve_inbound_eq h2
          have hle' : turns (ideal inb') ≤ turns (ideal body) := by
            have := serve_turns (hgo.trans (congrArg _ h2))
            exact this
          exact ih (by omega) (by omega) (hin ▸ receiveBody_smooth hs _ _ _)
            fun r hr => h r (List.mem_cons_of_mem _ hr)

/-- Two delivering schedules of one stream decode the same headers when no header read
times out behind its first byte, and the peer is heard from where a reply waits for it. -/
theorem headers_independent_of_schedule (cfg : Config) (envs : ℕ → ThreadEnv) (stream : Bytes)
    (out : Outbound) (w : World) (evs evs' : List RecvEvent)
    (h : Delivered cfg envs ⟨stream, evs⟩ out w) (h' : Delivered cfg envs ⟨stream, evs'⟩ out w)
    (hwhole : ∀ r ∈ storageThreadEntrance cfg envs ⟨stream, evs⟩ out w,
      HeaderWhole r ∧ PeerHeard r)
    (hwhole' : ∀ r ∈ storageThreadEntrance cfg envs ⟨stream, evs'⟩ out w,
      HeaderWhole r ∧ PeerHeard r) :
    headers (storageThreadEntrance cfg envs ⟨stream, evs⟩ out w) =
      headers (storageThreadEntrance cfg envs ⟨stream, evs'⟩ out w) := by
  have h1 := headers_eq_ideal (le_refl _) (le_refl _) h.smooth
    fun r hr => ⟨h.bodies r hr, hwhole r hr⟩
  have h2 := headers_eq_ideal (le_refl _) (le_refl _) h'.smooth
    fun r hr => ⟨h'.bodies r hr, hwhole' r hr⟩
  exact h1.trans h2.symm

/-- Two deletions on two schedules: pauses in front of the first header, and reads that split
the headers and the bodies. -/
theorem headers_independent_of_schedule_twoDeletes :
    headers (storageThreadEntrance sampleConfig (fun _ => {})
        ⟨twoDeletes.pending, [.timeout, .chunk 3, .chunk 6, .chunk 20]⟩ ⟨[], []⟩ sampleWorld) =
      headers (storageThreadEntrance sampleConfig (fun _ => {})
        ⟨twoDeletes.pending, [.timeout, .timeout, .chunk 10, .chunk 7, .chunk 9, .chunk 4]⟩
        ⟨[], []⟩ sampleWorld) := by
  exact headers_independent_of_schedule _ _ _ _ _ _ _
    ⟨by simp [Smooth], by decide +kernel⟩ ⟨by simp [Smooth], by decide +kernel⟩ (by decide +kernel)
    (by decide +kernel)

/-- A pause behind the third byte of the first header makes the loop decode a header at the
fourth byte of the stream. -/
theorem split_header_decodes_otherwise :
    ¬ ∀ evs evs', Delivered sampleConfig (fun _ => {}) ⟨twoDeletes.pending, evs⟩ ⟨[], []⟩
        sampleWorld →
      Delivered sampleConfig (fun _ => {}) ⟨twoDeletes.pending, evs'⟩ ⟨[], []⟩ sampleWorld →
      headers (storageThreadEntrance sampleConfig (fun _ => {}) ⟨twoDeletes.pending, evs⟩
          ⟨[], []⟩ sampleWorld) =
        headers (storageThreadEntrance sampleConfig (fun _ => {}) ⟨twoDeletes.pending, evs'⟩
          ⟨[], []⟩ sampleWorld) := by
  intro h
  have := h [] [.chunk 2, .timeout] ⟨by simp [Smooth], by decide +kernel⟩
    ⟨by simp [Smooth], by decide +kernel⟩
  exact absurd this (by decide +kernel)

end DemoStorage.HeaderTimeouts
