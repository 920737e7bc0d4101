import DemoStorage.MemoryBlocks
import DemoStorage.SocketTransfers

/-!
# The transfer loops on memory

Both loops carry a pointer into the caller's memory and the count of bytes left. A turn either
returns or moves the pointer past what was transferred, so that pointer and count always add
up to the size, and what lies before the pointer is what went over the stream. A run takes
the outcomes of its turns as they come; it may still be waiting when they are used up.
-/

namespace DemoStorage.SocketLoops
open ByteStrings MemoryBlocks SocketTransfers

section Loop
variable {σ ε : Type} {left : σ → ℤ} {turn : ε → σ → Option ℤ × σ}

/-- `while(byteleft > 0)` over the outcomes of its turns; `some` is the code with which the
function returns, `none` a loop that still waits. -/
def whileLeft (left : σ → ℤ) (turn : ε → σ → Option ℤ × σ) : List ε → σ → Option ℤ × σ
  | [], st => if left st ≤ 0 then (some 1, st) else (none, st)
  | e :: evs, st =>
    if left st ≤ 0 then (some 1, st)
    else match turn e st with
      | (some result, st') => (some result, st')
      | (none, st') => whileLeft left turn evs st'

/-- What every turn keeps holds when the loop returns or waits. -/
theorem whileLeft_keeps {P : σ → Prop} (hturn : ∀ e st, P st → P (turn e st).2) (evs : List ε)
    {st : σ} (h : P st) : P (whileLeft left turn evs st).2 := by
  induction evs generalizing st with
  | nil =>
    rw [whileLeft]
    split <;> exact h
  | cons e evs ih =>
    rw [whileLeft]
    have hst := hturn e st h
    split
    · exact h
    · split
      · rename_i heq
        rw [heq] at hst
        exact hst
      · rename_i heq
        rw [heq] at hst
        exact ih hst

/-- If a turn returns another code and as the state was, the loop returns 1 when nothing is left
and only then. -/
theorem whileLeft_eq_one
    (hturn : ∀ e st result, (turn e st).1 = some result → (turn e st).2 = st ∧ result ≠ 1)
    (evs : List ε) (st : σ) : (whileLeft left turn evs st).1 = some 1 ↔
      left (whileLeft left turn evs st).2 ≤ 0 := by
  induction evs generalizing st with
  | nil =>
    rw [whileLeft]
    split <;> simp_all
  | cons e evs ih =>
    rw [whileLeft]
    split
    · simp_all
    · rename_i hleft
      split
      · rename_i result st' heq
        obtain ⟨hst, hne⟩ := hturn e st result (by rw [heq])
        rw [heq] at hst
        dsimp only at hst
        rw [hst]
        exact iff_of_false (by simpa using hne) hleft
      · exact ih _

end Loop

/-- The receive loop between two turns: the memory, its pointer as an offset from `data`, the
bytes left and what is still to come over the stream. -/
structure RecvState where
  data : ℕ → Byte
  p : ℕ
  byteleft : ℤ
  pending : Bytes

def recvTurn : RecvEvent → RecvState → Option ℤ × RecvState
  | .selectError, st => (some (-1), st)
  | .timeout, st => (some 0, st)
  | .exceptional, st => (some (-1), st)
  | .readError, st => (some (-1), st)
  | .chunk k, st =>
    let result := min (k + 1) (min st.byteleft.toNat st.pending.length)
    if result = 0 then (some (-1), st)
    else (none, { data := store st.data st.p (st.pending.take result), p := st.p + result,
                  byteleft := st.byteleft - result, pending := st.pending.drop result })

def recvRun : List RecvEvent → RecvState → Option ℤ × RecvState :=
  whileLeft RecvState.byteleft recvTurn

/-- `tcprecvdata` with its guards; a null buffer has no memory. -/
def tcprecvdataInto (sock : ℤ) (data : Option (ℕ → Byte)) (size : ℤ) (evs : List RecvEvent)
    (pending : Bytes) : Option ℤ × RecvState :=
  match data with
  | none => (some (-1), ⟨fun _ => 0, 0, size, pending⟩)
  | some mem =>
    if sock < 0 then (some (-1), ⟨mem, 0, size, pending⟩) else recvRun evs ⟨mem, 0, size, pending⟩

/-- The send loop between two turns: its pointer as an offset from `data`, the bytes left and
what went out on the stream. -/
structure SendState where
  p : ℕ
  byteleft : ℤ
  sent : Bytes

def sendTurn (data : ℕ → Byte) : SendEvent → SendState → Option ℤ × SendState
  | .selectError, st => (some (-1), st)
  | .timeout, st => (some 0, st)
  | .exceptional, st => (some (-1), st)
  | .writeError, st => (some (-1), st)
  | .accept k, st =>
    let result := min k st.byteleft.toNat
    (none, { p := st.p + result, byteleft := st.byteleft - result,
             sent := st.sent ++ block data st.p result })

def sendRun (data : ℕ → Byte) : List SendEvent → SendState → Option ℤ × SendState :=
  whileLeft SendState.byteleft (sendTurn data)

/-- `tcpsenddata` with its guards. -/
def tcpsenddataFrom (sock : ℤ) (data : Option (ℕ → Byte)) (size : ℤ) (evs : List SendEvent)
    (sent : Bytes) : Option ℤ × SendState :=
  match data with
  | none => (some (-1), ⟨0, size, sent⟩)
  | some mem =>
    if sock < 0 then (some (-1), ⟨0, size, sent⟩) else sendRun mem evs ⟨0, size, sent⟩

section Receiving
variable {mem : ℕ → Byte} {size : ℤ} {stream : Bytes} {st : RecvState}

/-- What a receive loop has stored when its pointer is where it is. -/
structure Receiving (mem : ℕ → Byte) (size : ℤ) (stream : Bytes) (st : RecvState) : Prop where
  pointer : st.p ≤ stream.length
  data : st.data = store mem 0 (stream.take st.p)
  pending : st.pending = stream.drop st.p
  -- a size that is not positive is never counted down
  left : st.byteleft.toNat + st.p = size.toNat

theorem receiving_start : Receiving mem size stream ⟨mem, 0, size, stream⟩ where
  pointer := Nat.zero_le _
  data := by simp
  pending := rfl
  left := rfl

theorem Receiving.turn (h : Receiving mem size stream st) (e : RecvEvent) :
    Receiving mem size stream (recvTurn e st).2 := by
  cases e with
  | chunk k =>
    rw [recvTurn]
    generalize hm : min (k + 1) (min st.byteleft.toNat st.pending.length) = m
    split
    · exact h
    · have hlen : st.pending.length = stream.length - st.p := by
        rw [h.pending, List.length_drop]
      have hpointer := h.pointer
      have hleft := h.left
      have htake : stream.take (st.p + m) = stream.take st.p ++ st.pending.take m := by
        rw [h.pending, List.take_add]
      constructor
      · change st.p + m ≤ _
        omega
      · have hp : (0 : ℕ) + (stream.take st.p).length = st.p := by
          rw [List.length_take]
          omega
        have happ := store_append mem 0 (stream.take st.p) (st.pending.take m)
        rw [hp, ← h.data, ← htake] at happ
        exact happ
      · change st.pending.drop m = _
        rw [h.pending, List.drop_drop]
      · change (st.byteleft - (m : ℤ)).toNat + (st.p + m) = _
        omega
  | _ => exact h

theorem recvTurn_returns {e : RecvEvent} {result : ℤ} (h : (recvTurn e st).1 = some result) :
    (recvTurn e st).2 = st ∧ result ≠ 1 := by
  have hcode : result = -1 ∨ result = 0 := by
    cases e with
    | chunk k =>
      rw [recvTurn] at h
      split at h
      · exact .inl (Option.some.inj h).symm
      · cases h
    | timeout => exact .inr (Option.some.inj h).symm
    | _ => exact .inl (Option.some.inj h).symm
  refine ⟨?_, by omega⟩
  cases e with
  | chunk k =>
    rw [recvTurn] at h ⊢
    split at h
    · rename_i hm
      rw [if_pos hm]
    · cases h
  | _ => rfl

theorem Receiving.run (h : Receiving mem size stream st) (evs : List RecvEvent) :
    Receiving mem size stream (recvRun evs st).2 :=
  whileLeft_keeps (fun e _ h => h.turn e) evs h

/-- The receive loop returns 1 when it has stored the whole size, and only then. -/
theorem Receiving.run_eq_one (h : Receiving mem size stream st) (evs : List RecvEvent) :
    (recvRun evs st).1 = some 1 ↔ (recvRun evs st).2.p = size.toNat := by
  have hleft := (h.run evs).left
  have hone : (recvRun evs st).1 = some 1 ↔ (recvRun evs st).2.byteleft ≤ 0 :=
    whileLeft_eq_one (fun _ _ _ => recvTurn_returns) evs st
  rw [hone]
  omega

end Receiving

section Sending
variable {mem : ℕ → Byte} {size : ℤ} {stream : Bytes} {st : SendState}

/-- What a send loop has written when its pointer is where it is. -/
structure Sending (mem : ℕ → Byte) (size : ℤ) (stream : Bytes) (st : SendState) : Prop where
  sent : st.sent = stream ++ block mem 0 st.p
  left : st.byteleft.toNat + st.p = size.toNat

theorem sending_start : Sending mem size stream ⟨0, size, stream⟩ where
  sent := by simp [block]
  left := rfl

theorem Sending.turn (h : Sending mem size stream st) (e : SendEvent) :
    Sending mem size stream (sendTurn mem e st).2 := by
  cases e with
  | accept k =>
    have hleft := h.left
    constructor
    · change st.sent ++ block mem st.p (min k st.byteleft.toNat) =
        stream ++ block mem 0 (st.p + min k st.byteleft.toNat)
      rw [h.sent, List.append_assoc, block_add, Nat.zero_add]
    · change (st.byteleft - (min k st.byteleft.toNat : ℕ)).toNat +
        (st.p + min k st.byteleft.toNat) = _
      omega
  | _ => exact h

theorem sendTurn_returns {e : SendEvent} {result : ℤ} (h : (sendTurn mem e st).1 = some result) :
    (sendTurn mem e st).2 = st ∧ result ≠ 1 := by
  cases e with
  | accept k => cases h
  | _ =>
    obtain rfl := Option.some.inj h
    exact ⟨rfl, by decide⟩

theorem Sending.run (h : Sending mem size stream st) (evs : List SendEvent) :
    Sending mem size stream (sendRun mem evs st).2 :=
  whileLeft_keeps (fun e _ h => h.turn e) evs h

theorem Sending.run_eq_one (h : Sending mem size stream st) (evs : List SendEvent) :
    (sendRun mem evs st).1 = some 1 ↔ (sendRun mem evs st).2.p = size.toNat := by
  have hleft := (h.run evs).left
  have hone : (sendRun mem evs st).1 = some 1 ↔ (sendRun mem evs st).2.byteleft ≤ 0 :=
    whileLeft_eq_one (fun _ _ _ => sendTurn_returns) evs st
  rw [hone]
  omega

end Sending

section Ideal

theorem recvRun_zero (evs : List RecvEvent) (mem : ℕ → Byte) (p : ℕ) (pending : Bytes) :
    recvRun evs ⟨mem, p, (0 : ℕ), pending⟩ = (some 1, ⟨mem, p, (0 : ℕ), pending⟩) := by
  cases evs <;> rfl

theorem recvRun_chunk (k : ℕ) (evs : List RecvEvent) (mem : ℕ → Byte) (p n : ℕ)
    (pending : Bytes) :
    recvRun (.chunk k :: evs) ⟨mem, p, (n + 1 : ℕ), pending⟩ =
      let result := min (k + 1) (min (n + 1) pending.length)
      if result = 0 then (some (-1), ⟨mem, p, (n + 1 : ℕ), pending⟩)
      else recvRun evs ⟨store mem p (pending.take result), p + result, (n + 1 - result : ℕ),
        pending.drop result⟩ := by
  have hleft : ¬ ((n + 1 : ℕ) : ℤ) ≤ 0 := by omega
  rw [recvRun, whileLeft, if_neg hleft, recvTurn]
  generalize hj : min (k + 1) (min ((n + 1 : ℕ) : ℤ).toNat pending.length) = j
  have hj' : min (k + 1) (min (n + 1) pending.length) = j := hj
  rw [hj']
  by_cases h0 : j = 0
  · rw [if_pos h0, if_pos h0]
  · have hsub : ((n + 1 : ℕ) : ℤ) - (j : ℤ) = ((n + 1 - j : ℕ) : ℤ) := by omega
    rw [if_neg h0, if_neg h0, hsub]

/-- `recvLoop` is the receive loop on a network that at last delivers everything and then reports
the end of the stream. -/
theorem recvLoop_run (evs : List RecvEvent) (mem : ℕ → Byte) (p n : ℕ) (pending : Bytes) {m : ℕ}
    (hm : pending.length ≤ m) :
    let run := recvRun (evs ++ [.chunk m, .chunk 0]) ⟨mem, p, n, pending⟩
    let r := recvLoop evs pending n
    run.1 = some r.result ∧ run.2.pending = r.rest.pending ∧ run.2.p = p + r.data.length := by
  induction evs generalizing mem p n pending with
  | nil =>
    cases n with
    | zero =>
      rw [recvRun_zero, recvLoop]
      exact ⟨rfl, rfl, rfl⟩
    | succ n =>
      have hj : min (m + 1) (min (n + 1) pending.length) = min (n + 1) pending.length := by omega
      rw [List.nil_append, recvRun_chunk, hj, recvLoop_nil]
      by_cases hle : n + 1 ≤ pending.length
      · rw [min_eq_left hle, if_pos hle, if_neg (Nat.succ_ne_zero n), Nat.sub_self, recvRun_zero]
        simp [hle]
      · obtain ⟨l, hl⟩ : ∃ l, n + 1 - pending.length = l + 1 := ⟨n - pending.length, by omega⟩
        rw [min_eq_right (by omega), if_neg hle]
        dsimp only
        by_cases h0 : pending.length = 0
        · rw [if_pos h0]
          simp [List.eq_nil_of_length_eq_zero h0]
        · rw [if_neg h0, hl, List.drop_length, recvRun_chunk]
          simp
  | cons e evs ih =>
    cases n with
    | zero =>
      rw [recvRun_zero, recvLoop]
      exact ⟨rfl, rfl, rfl⟩
    | succ n =>
      cases e with
      | chunk k =>
        rw [List.cons_append, recvRun_chunk, recvLoop]
        generalize hj : min (k + 1) (min (n + 1) pending.length) = j
        by_cases h0 : j = 0
        · rw [if_pos h0, if_pos h0]
          exact ⟨rfl, rfl, rfl⟩
        · have hdrop : (pending.drop j).length ≤ m := by
            rw [List.length_drop]
            omega
          obtain ⟨hresult, hpending, hp⟩ :=
            ih (store mem p (pending.take j)) (p + j) (n + 1 - j) (pending.drop j) hdrop
          rw [if_neg h0, if_neg h0]
          refine ⟨hresult, hpending, hp.trans ?_⟩
          rw [List.length_append, List.length_take]
          omega
      | _ => exact ⟨rfl, rfl, rfl⟩

theorem sendRun_accept (mem : ℕ → Byte) (k : ℕ) (evs : List SendEvent) (p n : ℕ) (sent : Bytes) :
    sendRun mem (.accept k :: evs) ⟨p, (n + 1 : ℕ), sent⟩ =
      let result := min k (n + 1)
      sendRun mem evs ⟨p + result, (n + 1 - result : ℕ), sent ++ block mem p result⟩ := by
  have hleft : ¬ ((n + 1 : ℕ) : ℤ) ≤ 0 := by omega
  rw [sendRun, whileLeft, if_neg hleft, sendTurn]
  have hsub : ((n + 1 : ℕ) : ℤ) - ((min k (n + 1) : ℕ) : ℤ) =
      ((n + 1 - min k (n + 1) : ℕ) : ℤ) := by omega
  rw [Int.toNat_natCast, hsub]

/-- `sendLoop` is the send loop on a network that at last takes everything. -/
theorem sendLoop_run (evs : List SendEvent) (mem : ℕ → Byte) (p n : ℕ) (sent : Bytes) {m : ℕ}
    (hm : n ≤ m) :
    let run := sendRun mem (evs ++ [.accept m]) ⟨p, n, sent⟩
    let r := sendLoop evs (block mem p n)
    run.1 = some r.result ∧ run.2.sent = sent ++ r.written := by
  induction evs generalizing p n sent with
  | nil =>
    cases n with
    | zero => simp [sendRun, whileLeft, sendLoop, block]
    | succ n =>
      rw [List.nil_append, sendRun_accept, min_eq_right hm]
      dsimp only
      rw [Nat.sub_self]
      exact ⟨rfl, rfl⟩
  | cons e evs ih =>
    cases n with
    | zero => simp [sendRun, whileLeft, sendLoop, block]
    | succ n =>
      cases e with
      | accept k =>
        obtain ⟨hresult, hsent⟩ := ih (p + min k (n + 1)) (n + 1 - min k (n + 1))
          (sent ++ block mem p (min k (n + 1))) (by omega)
        rw [List.cons_append, sendRun_accept]
        have hloop : sendLoop (.accept k :: evs) (block mem p (n + 1)) =
            let r := sendLoop evs ((block mem p (n + 1)).drop k)
            ⟨r.result, (block mem p (n + 1)).take k ++ r.written, r.events⟩ := rfl
        rw [hloop, drop_block, take_block]
        exact ⟨hresult, hsent.trans (List.append_assoc _ _ _)⟩
      | _ => exact ⟨rfl, (List.append_nil sent).symm⟩

end Ideal

section Calls

/-- A call of `tcpsenddata`: its memory and size, and what `select` and `write` do in it. -/
structure SendCall where
  data : ℕ → Byte
  size : ℤ
  events : List SendEvent

/-- The buffer of a call. -/
def SendCall.bytes (c : SendCall) : Bytes := block c.data 0 c.size.toNat

/-- The stream after calls of `tcpsenddata` one after the other, if all of them succeed. -/
def sendAll (sock : ℤ) : List SendCall → Bytes → Option Bytes
  | [], sent => some sent
  | c :: cs, sent =>
    let r := tcpsenddataFrom sock (some c.data) c.size c.events sent
    if r.1 = some 1 then sendAll sock cs r.2.sent else none

variable {sock : ℤ}

theorem tcprecvdataInto_run (hsock : 0 ≤ sock) (mem : ℕ → Byte) (size : ℤ) (evs : List RecvEvent)
    (stream : Bytes) : tcprecvdataInto sock (some mem) size evs stream =
      recvRun evs ⟨mem, 0, size, stream⟩ := by
  rw [tcprecvdataInto]
  exact if_neg (by omega)

theorem tcpsenddataFrom_run (hsock : 0 ≤ sock) (mem : ℕ → Byte) (size : ℤ) (evs : List SendEvent)
    (sent : Bytes) : tcpsenddataFrom sock (some mem) size evs sent =
      sendRun mem evs ⟨0, size, sent⟩ := by
  rw [tcpsenddataFrom]
  exact if_neg (by omega)

theorem sendAll_bytes (hsock : 0 ≤ sock) {cs : List SendCall} {sent stream : Bytes}
    (h : sendAll sock cs sent = some stream) : stream = sent ++ cs.flatMap SendCall.bytes := by
  induction cs generalizing sent with
  | nil =>
    obtain rfl := Option.some.inj h
    simp
  | cons c cs ih =>
    rw [sendAll, tcpsenddataFrom_run hsock] at h
    split at h
    · rename_i hone
      have hrun : Sending c.data c.size sent _ := sending_start.run c.events
      rw [sending_start.run_eq_one] at hone
      rw [ih h, hrun.sent, hone, List.flatMap_cons, List.append_assoc]
      rfl
    · cases h

/-- What a call of `tcprecvdata` leaves: the start of the stream stored in order and without a
gap, nothing behind the size, and result 1 for the whole size only. -/
structure StoresPrefix (mem : ℕ → Byte) (size : ℤ) (stream : Bytes)
    (r : Option ℤ × RecvState) : Prop where
  bounded : r.2.p ≤ size.toNat
  stored : block r.2.data 0 r.2.p = stream.take r.2.p
  untouched : ∀ i, r.2.p ≤ i → r.2.data i = mem i
  consumed : r.2.p ≤ stream.length ∧ r.2.pending = stream.drop r.2.p
  result : r.1 = some 1 ↔ r.2.p = size.toNat

/-- What a call of `tcpsenddata` leaves: the start of the buffer behind what the stream had, in
order and once, and result 1 for the whole buffer only. -/
structure SendsPrefix (mem : ℕ → Byte) (size : ℤ) (stream : Bytes)
    (r : Option ℤ × SendState) : Prop where
  bounded : r.2.p ≤ size.toNat
  sent : r.2.sent = stream ++ block mem 0 r.2.p
  result : r.1 = some 1 ↔ r.2.p = size.toNat

theorem tcprecvdataInto_stores (hsock : 0 ≤ sock) (mem : ℕ → Byte) (size : ℤ)
    (evs : List RecvEvent) (stream : Bytes) :
    StoresPrefix mem size stream (tcprecvdataInto sock (some mem) size evs stream) := by
  rw [tcprecvdataInto_run hsock]
  have hrun : Receiving mem size stream _ := receiving_start.run evs
  have hleft := hrun.left
  have hlen : (stream.take (recvRun evs ⟨mem, 0, size, stream⟩).2.p).length =
      (recvRun evs ⟨mem, 0, size, stream⟩).2.p := List.length_take_of_le hrun.pointer
  constructor
  · omega
  · have hstored := block_store mem 0 (stream.take (recvRun evs ⟨mem, 0, size, stream⟩).2.p)
    rwa [← hrun.data, hlen] at hstored
  · intro i hi
    rw [hrun.data]
    exact store_of_le mem 0 (by omega)
  · exact ⟨hrun.pointer, hrun.pending⟩
  · exact receiving_start.run_eq_one evs

theorem tcpsenddataFrom_sends (hsock : 0 ≤ sock) (mem : ℕ → Byte) (size : ℤ)
    (evs : List SendEvent) (stream : Bytes) :
    SendsPrefix mem size stream (tcpsenddataFrom sock (some mem) size evs stream) := by
  rw [tcpsenddataFrom_run hsock]
  have hrun : Sending mem size stream _ := sending_start.run evs
  have hleft := hrun.left
  constructor
  · omega
  · exact hrun.sent
  · exact sending_start.run_eq_one evs

/-- Both loops transfer a prefix, all of it when they return 1, so that what is received does not
depend on the calls that sent it. -/
theorem transfers_in_order {peer : ℤ} (hsock : 0 ≤ sock) (hpeer : 0 ≤ peer) :
    (∀ mem size evs stream,
      StoresPrefix mem size stream (tcprecvdataInto sock (some mem) size evs stream)) ∧
    (∀ mem size evs stream,
      SendsPrefix mem size stream (tcpsenddataFrom peer (some mem) size evs stream)) ∧
    ∀ (cs cs' : List SendCall) (stream stream' : Bytes) (mem mem' : ℕ → Byte) (size : ℤ)
      (evs evs' : List RecvEvent),
      cs.flatMap SendCall.bytes = cs'.flatMap SendCall.bytes →
      sendAll peer cs [] = some stream → sendAll peer cs' [] = some stream' →
      let r := tcprecvdataInto sock (some mem) size evs stream
      let r' := tcprecvdataInto sock (some mem') size evs' stream'
      r.1 = some 1 → r'.1 = some 1 →
        block r.2.data 0 size.toNat = (cs.flatMap SendCall.bytes).take size.toNat ∧
        block r'.2.data 0 size.toNat = block r.2.data 0 size.toNat ∧
        r'.2.pending = r.2.pending := by
  refine ⟨tcprecvdataInto_stores hsock, tcpsenddataFrom_sends hpeer, ?_⟩
  intro cs cs' stream stream' mem mem' size evs evs' hbytes hsent hsent' r r' hone hone'
  have hstream : stream = cs.flatMap SendCall.bytes := sendAll_bytes hpeer hsent
  have hstream' : stream' = stream := by
    rw [hstream, hbytes]
    exact sendAll_bytes hpeer hsent'
  have hr : StoresPrefix mem size stream r := tcprecvdataInto_stores hsock mem size evs stream
  have hr' : StoresPrefix mem' size stream' r' :=
    tcprecvdataInto_stores hsock mem' size evs' stream'
  have hp := hr.result.mp hone
  have hp' := hr'.result.mp hone'
  have hstored := hr.stored
  have hstored' := hr'.stored
  have hpending := hr.consumed.2
  have hpending' := hr'.consumed.2
  rw [hp] at hstored hpending
  rw [hp', hstream'] at hstored' hpending'
  exact ⟨hstream ▸ hstored, hstored'.trans hstored.symm, hpending'.trans hpending.symm⟩

/-- Three bytes sent in two calls, one of them with an empty write, or at once; the read comes in
two parts or in one. -/
theorem transfers_in_order_split :
    let text (s : String) : ℕ → Byte := store (fun _ => 0) 0 (ascii s)
    let cs : List SendCall :=
      [⟨text "ab", 2, [.accept 1, .accept 0, .accept 1]⟩, ⟨text "c", 1, [.accept 9]⟩]
    let cs' : List SendCall := [⟨text "abc", 3, [.accept 3]⟩]
    sendAll 4 cs [] = some (ascii "abc") ∧ sendAll 4 cs' [] = some (ascii "abc") ∧
      block (tcprecvdataInto 3 (some fun _ => 7) 3 [.chunk 0, .chunk 5] (ascii "abc")).2.data 0 3 =
        ascii "abc" := by
  intro text cs cs'
  obtain ⟨-, -, h⟩ := @transfers_in_order 3 4 (by decide) (by decide)
  have hcs : sendAll 4 cs [] = some (ascii "abc") := by decide
  have hcs' : sendAll 4 cs' [] = some (ascii "abc") := by decide
  exact ⟨hcs, hcs', (h cs cs' _ _ (fun _ => 7) (fun _ => 0) 3 [.chunk 0, .chunk 5] [.chunk 2]
    (by decide) hcs hcs' (by decide) (by decide)).1.trans (by decide)⟩

end Calls

end DemoStorage.SocketLoops
