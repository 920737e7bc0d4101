import DemoStorage.ByteStrings

/-!
# Transfers over a socket

`tcprecvdata` and `tcpsenddata` loop over `select` and `read` or `write` until the whole
size has been transferred, the wait times out or a call fails. A peer is the bytes it will
ever send together with what the successive waits and reads do; once the events are used
up the network delivers everything at once and then reports the end of the stream.

Both calls put the socket into the read set of their `select`. A send therefore waits for
something to read, as a receive does: it proceeds when bytes of the peer or its end are there,
and fails when the wait for them times out. The events of an outbound side are what the turns
of the send loop find; `awaiting` puts in front of them the wait of its own inbound side.
-/

namespace DemoStorage.SocketTransfers
open ByteStrings

/-- One turn of the receive loop: `chunk n` makes at most `n + 1` bytes readable. -/
inductive RecvEvent where
  | selectError
  | timeout
  | exceptional
  | readError
  | chunk (n : ℕ)
  deriving DecidableEq

@[ext] structure Inbound where
  pending : Bytes
  events : List RecvEvent
  deriving DecidableEq

@[ext] structure Received where
  result : ℤ
  data : Bytes
  rest : Inbound
  deriving DecidableEq

/-- The receive loop with `byteleft` bytes still to come. -/
def recvLoop : List RecvEvent → Bytes → ℕ → Received
  | evs, pending, 0 => ⟨1, [], ⟨pending, evs⟩⟩
  | [], pending, n + 1 =>
    if n + 1 ≤ pending.length then ⟨1, pending.take (n + 1), ⟨pending.drop (n + 1), []⟩⟩
    else ⟨-1, pending, ⟨[], []⟩⟩
  | .selectError :: evs, pending, _ + 1 => ⟨-1, [], ⟨pending, evs⟩⟩
  | .timeout :: evs, pending, _ + 1 => ⟨0, [], ⟨pending, evs⟩⟩
  | .exceptional :: evs, pending, _ + 1 => ⟨-1, [], ⟨pending, evs⟩⟩
  | .readError :: evs, pending, _ + 1 => ⟨-1, [], ⟨pending, evs⟩⟩
  | .chunk k :: evs, pending, n + 1 =>
    let m := min (k + 1) (min (n + 1) pending.length)
    -- a read of no bytes is the end of the stream
    if m = 0 then ⟨-1, [], ⟨pending, evs⟩⟩
    else
      let r := recvLoop evs (pending.drop m) (n + 1 - m)
      ⟨r.result, pending.take m ++ r.data, r.rest⟩

def tcprecvdata (s : Inbound) (size : ℤ) : Received := recvLoop s.events s.pending size.toNat

/-- What `recvLoop` stores is what it takes off the stream. -/
theorem recvLoop_pending (evs : List RecvEvent) (pending : Bytes) (n : ℕ) :
    pending = (recvLoop evs pending n).data ++ (recvLoop evs pending n).rest.pending := by
  induction evs generalizing pending n with
  | nil =>
    cases n with
    | zero => rfl
    | succ n =>
      unfold recvLoop
      split <;> simp
  | cons e evs ih =>
    cases n with
    | zero => simp [recvLoop]
    | succ n =>
      cases e with
      | chunk k =>
        simp only [recvLoop]
        split
        · simp
        · rw [List.append_assoc, ← ih, List.take_append_drop]
      | _ => simp [recvLoop]

/-- Result 1 means that exactly the size asked for was stored. -/
theorem recvLoop_length (evs : List RecvEvent) (pending : Bytes) (n : ℕ) :
    (recvLoop evs pending n).data.length ≤ n ∧
      ((recvLoop evs pending n).result = 1 → (recvLoop evs pending n).data.length = n) := by
  induction evs generalizing pending n with
  | nil =>
    cases n with
    | zero => simp [recvLoop]
    | succ n =>
      unfold recvLoop
      split <;> simp <;> omega
  | cons e evs ih =>
    cases n with
    | zero => simp [recvLoop]
    | succ n =>
      cases e with
      | chunk k =>
        simp only [recvLoop]
        split
        · simp
        · generalize hm : min (k + 1) (min (n + 1) pending.length) = m
          obtain ⟨h1, h2⟩ := ih (pending.drop m) (n + 1 - m)
          simp only [List.length_append, List.length_take]
          exact ⟨by omega, fun h => by have := h2 h; omega⟩
      | _ => simp [recvLoop]

/-- A receive that succeeds has taken its size off the stream. -/
theorem tcprecvdata_received {inb : Inbound} {size : ℤ} (h : (tcprecvdata inb size).result = 1) :
    (tcprecvdata inb size).data = inb.pending.take size.toNat ∧
      (tcprecvdata inb size).rest.pending = inb.pending.drop size.toNat ∧
      size.toNat ≤ inb.pending.length := by
  have hp : inb.pending = (tcprecvdata inb size).data ++ (tcprecvdata inb size).rest.pending :=
    recvLoop_pending inb.events inb.pending size.toNat
  have hl : (tcprecvdata inb size).data.length = size.toNat :=
    (recvLoop_length inb.events inb.pending size.toNat).2 h
  refine ⟨?_, ?_, ?_⟩
  · rw [hp, ← hl, List.take_left]
  · conv_rhs => rw [hp, ← hl, List.drop_left]
  · rw [hp, List.length_append]
    omega

theorem recvLoop_events_le (evs : List RecvEvent) (pending : Bytes) (n : ℕ) :
    (recvLoop evs pending n).rest.events.length ≤ evs.length ∧
      ((recvLoop evs pending n).result = 0 →
        (recvLoop evs pending n).rest.events.length < evs.length) := by
  induction evs generalizing pending n with
  | nil =>
    cases n with
    | zero => simp [recvLoop]
    | succ n =>
      unfold recvLoop
      split <;> simp
  | cons e evs ih =>
    cases n with
    | zero => simp [recvLoop]
    | succ n =>
      cases e with
      | chunk k =>
        simp only [recvLoop]
        split
        · simp
        · obtain ⟨h1, h2⟩ := ih (pending.drop (min (k + 1) (min (n + 1) pending.length)))
            (n + 1 - min (k + 1) (min (n + 1) pending.length))
          simp only [List.length_cons]
          exact ⟨by omega, fun h => by have := h2 h; omega⟩
      | _ => simp [recvLoop]

/-- Fragmentation and timeouts only: no call of the receive loop fails. -/
def Smooth (evs : List RecvEvent) : Prop := ∀ e ∈ evs, e = .timeout ∨ ∃ k, e = .chunk k

theorem recvLoop_smooth_rest {evs : List RecvEvent} (h : Smooth evs) (pending : Bytes) (n : ℕ) :
    Smooth (recvLoop evs pending n).rest.events := by
  induction evs generalizing pending n with
  | nil =>
    cases n with
    | zero => simpa [recvLoop] using h
    | succ n =>
      unfold recvLoop
      split <;> simp [Smooth]
  | cons e evs ih =>
    have ht : Smooth evs := fun a ha => h a (List.mem_cons_of_mem _ ha)
    cases n with
    | zero => simpa [recvLoop] using h
    | succ n =>
      cases e with
      | chunk k =>
        simp only [recvLoop]
        split
        · exact ht
        · exact ih ht _ _
      | _ => simpa [recvLoop] using ht

/-- On an ideal network only the end of the stream stops a transfer. -/
theorem recvLoop_nil (pending : Bytes) (n : ℕ) :
    recvLoop [] pending n = if n ≤ pending.length then
      ⟨1, pending.take n, ⟨pending.drop n, []⟩⟩ else ⟨-1, pending, ⟨[], []⟩⟩ := by
  cases n with
  | zero => simp [recvLoop]
  | succ n => rfl

theorem tcprecvdata_ideal_rest (pending : Bytes) (size : ℤ) :
    (tcprecvdata ⟨pending, []⟩ size).rest.events = [] := by
  simp only [tcprecvdata, recvLoop_nil]
  split <;> rfl

/-- Fragmentation is invisible: without a timeout the loop stores what an ideal network
would have delivered. -/
theorem recvLoop_eq_ideal {evs : List RecvEvent} (h : Smooth evs) (pending : Bytes) (n : ℕ)
    (h0 : (recvLoop evs pending n).result ≠ 0) :
    (recvLoop evs pending n).result = (recvLoop [] pending n).result ∧
      (recvLoop evs pending n).data = (recvLoop [] pending n).data ∧
      (recvLoop evs pending n).rest.pending = (recvLoop [] pending n).rest.pending := by
  induction evs generalizing pending n with
  | nil => exact ⟨rfl, rfl, rfl⟩
  | cons e evs ih =>
    have ht : Smooth evs := fun a ha => h a (List.mem_cons_of_mem _ ha)
    cases n with
    | zero => simp [recvLoop]
    | succ n =>
      obtain rfl | ⟨k, rfl⟩ := h _ List.mem_cons_self
      · simp [recvLoop] at h0
      · simp only [recvLoop] at h0 ⊢
        generalize hm : min (k + 1) (min (n + 1) pending.length) = m at h0 ⊢
        by_cases hz : m = 0
        · have hp : pending = [] := List.eq_nil_of_length_eq_zero (by omega)
          simp [hz, hp]
        · simp only [hz, if_false] at h0 ⊢
          obtain ⟨h1, h2, h3⟩ := ih ht _ _ h0
          rw [h1, h2, h3, recvLoop_nil]
          by_cases hle : n + 1 ≤ pending.length
          · have hd : n + 1 - m ≤ (pending.drop m).length := by
              rw [List.length_drop]
              omega
            have hnm : n + 1 = m + (n + 1 - m) := by omega
            simp only [hd, hle, if_true]
            refine ⟨trivial, ?_, ?_⟩
            · rw [← List.take_add, ← hnm]
            · rw [List.drop_drop, ← hnm]
          · have hd : ¬ n + 1 - m ≤ (pending.drop m).length := by
              rw [List.length_drop]
              omega
            simp only [hd, hle, if_false]
            exact ⟨trivial, List.take_append_drop m pending, trivial⟩

/-- One turn of the send loop: `accept n` lets `write` take at most `n` bytes. -/
inductive SendEvent where
  | selectError
  | timeout
  | exceptional
  | writeError
  | accept (n : ℕ)
  deriving DecidableEq

structure Outbound where
  sent : Bytes
  events : List SendEvent
  deriving DecidableEq

structure Sent where
  result : ℤ
  written : Bytes
  events : List SendEvent
  deriving DecidableEq

def sendLoop : List SendEvent → Bytes → Sent
  | evs, [] => ⟨1, [], evs⟩
  | [], b :: data => ⟨1, b :: data, []⟩
  | .selectError :: evs, _ :: _ => ⟨-1, [], evs⟩
  | .timeout :: evs, _ :: _ => ⟨0, [], evs⟩
  | .exceptional :: evs, _ :: _ => ⟨-1, [], evs⟩
  | .writeError :: evs, _ :: _ => ⟨-1, [], evs⟩
  | .accept k :: evs, b :: data =>
    let r := sendLoop evs ((b :: data).drop k)
    ⟨r.result, (b :: data).take k ++ r.written, r.events⟩

/-- The next wait for something to read ends with bytes, the end of the stream or an error of
the connection. -/
def Inbound.Heard (s : Inbound) : Prop :=
  ∀ e, s.events.head? = some e → e = .readError ∨ ∃ k, e = .chunk k

instance : DecidablePred Inbound.Heard
  | ⟨_, []⟩ => .isTrue fun _ h => nomatch h
  | ⟨_, .chunk k :: _⟩ => .isTrue fun _ h => .inr ⟨k, (Option.some.inj h).symm⟩
  | ⟨_, .readError :: _⟩ => .isTrue fun _ h => .inl (Option.some.inj h).symm
  | ⟨_, .selectError :: _⟩ => .isFalse fun h => by simpa using h _ rfl
  | ⟨_, .timeout :: _⟩ => .isFalse fun h => by simpa using h _ rfl
  | ⟨_, .exceptional :: _⟩ => .isFalse fun h => by simpa using h _ rfl

theorem Inbound.Heard.of_nil {s : Inbound} (h : s.events = []) : s.Heard := by
  intro e he
  rw [h] at he
  cases he

/-- The outbound side of a socket whose inbound side is `s`: a turn of the send loop finds what
the wait for something to read finds. What is there to be read stays there. -/
def Outbound.awaiting (s : Inbound) (o : Outbound) : Outbound :=
  match s.events.head? with
  | some .timeout => { o with events := .timeout :: o.events }
  | some .selectError => { o with events := .selectError :: o.events }
  | some .exceptional => { o with events := .exceptional :: o.events }
  | _ => o

@[simp] theorem Outbound.awaiting_sent (s : Inbound) (o : Outbound) :
    (o.awaiting s).sent = o.sent := by
  unfold Outbound.awaiting
  split <;> rfl

/-- A peer that is heard does not hold up a send. -/
theorem Outbound.awaiting_heard {s : Inbound} (h : s.Heard) (o : Outbound) :
    o.awaiting s = o := by
  unfold Outbound.awaiting
  split
  · rename_i he
    simpa using h _ he
  · rename_i he
    simpa using h _ he
  · rename_i he
    simpa using h _ he
  · rfl

/-- A null buffer is refused before anything is sent. -/
def tcpsenddata (o : Outbound) : Option Bytes → ℤ × Outbound
  | none => (-1, o)
  | some data =>
    let r := sendLoop o.events data
    (r.result, ⟨o.sent ++ r.written, r.events⟩)

/-- A send that succeeds has written everything. -/
theorem sendLoop_written {evs : List SendEvent} {data : Bytes}
    (h : (sendLoop evs data).result = 1) : (sendLoop evs data).written = data := by
  induction evs generalizing data with
  | nil => cases data <;> rfl
  | cons e evs ih =>
    cases data with
    | nil => rfl
    | cons b data =>
      cases e with
      | accept k =>
        have h' : (sendLoop evs ((b :: data).drop k)).result = 1 := h
        rw [sendLoop, ih h', List.take_append_drop]
      | _ => cases h

/-- Behind a wait that hears nothing no byte is sent. -/
theorem tcpsenddata_unheard {s : Inbound} (h : ¬ s.Heard) (o : Outbound) {data : Bytes}
    (hdata : data ≠ []) : (tcpsenddata (o.awaiting s) (some data)).1 ≠ 1 ∧
      (tcpsenddata (o.awaiting s) (some data)).2.sent = o.sent := by
  obtain ⟨b, data, rfl⟩ := List.exists_cons_of_ne_nil hdata
  obtain ⟨pending, evs⟩ := s
  obtain _ | ⟨e, evs⟩ := evs
  · exact absurd (fun _ he => nomatch he) h
  · cases e with
    | chunk k => exact absurd (fun _ he => .inr ⟨k, (Option.some.inj he).symm⟩) h
    | readError => exact absurd (fun _ he => .inl (Option.some.inj he).symm) h
    | _ => simp [tcpsenddata, Outbound.awaiting, sendLoop]

theorem sent_of_tcpsenddata {o : Outbound} {data : Bytes}
    (h : (tcpsenddata o (some data)).1 = 1) :
    (tcpsenddata o (some data)).2.sent = o.sent ++ data := by
  have h' : (sendLoop o.events data).result = 1 := h
  simp only [tcpsenddata, sendLoop_written h']

end DemoStorage.SocketTransfers
