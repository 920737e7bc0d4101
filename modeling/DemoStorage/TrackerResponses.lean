import DemoStorage.MemoryBlocks
import DemoStorage.NumeralScans
import DemoStorage.TrackerProtocol

/-!
# Responses into a buffer

`tracker_recv_response` receives a header and then its body, into the caller's buffer or, if the
caller has none, into one it allocates and gives away. The length, the pointer and the result
it leaves agree on every way out.
-/

namespace DemoStorage.TrackerResponses
open ByteStrings NumeralScans MemoryBlocks PosixFileTree SocketTransfers DaemonState
open RequestHandlers ServiceThread TrackerProtocol

/-- What a call leaves: its result, `*in_bytes`, the memory behind `*buff` unless that is null, the
bytes stored there, and what is left of the stream. -/
structure RecvResponse where
  result : Errno
  inBytes : ℤ
  buff : Option (ℕ → Byte)
  stored : Bytes
  rest : Inbound

/-- `errno` behind a failed call, and what `malloc` does: `fresh` is the memory it gives. -/
structure ResponseEnv where
  errno : Errno := 0
  mallocFails : Bool := false
  fresh : ℕ → Byte := fun _ => 0

/-- The second receive, behind the checks. -/
def recvBody (env : ResponseEnv) (status : Errno) (inBytes : ℤ) (bMalloced : Bool)
    (mem : ℕ → Byte) (inb : Inbound) : RecvResponse :=
  let b := tcprecvdata inb inBytes
  let buff := some (store mem 0 b.data)
  if b.result ≠ 1 then
    ⟨errnoOr env.errno EPIPE, 0, if bMalloced then none else buff, b.data, b.rest⟩
  else ⟨status, inBytes, buff, b.data, b.rest⟩

def trackerRecvResponseInto (env : ResponseEnv) (inb : Inbound) (buff : Option (ℕ → Byte))
    (buffSize : ℤ) : RecvResponse :=
  let r := tcprecvdata inb sizeofHeader
  if r.result ≠ 1 then ⟨errnoOr env.errno EPIPE, 0, buff, [], r.rest⟩
  else
    let resp := decodeHeader r.data
    let inBytes := resp.nInPackLen
    if resp.status ≠ 0 then ⟨resp.status, 0, buff, [], r.rest⟩
    else if inBytes < 0 then ⟨errnoOr env.errno EINVAL, 0, buff, [], r.rest⟩
    else if inBytes = 0 then ⟨resp.status, inBytes, buff, [], r.rest⟩
    else match buff with
      | none =>
        if env.mallocFails then ⟨errnoOr env.errno ENOMEM, 0, none, [], r.rest⟩
        else recvBody env resp.status inBytes true env.fresh r.rest
      | some mem =>
        if buffSize < inBytes then ⟨errnoOr env.errno EINVAL, 0, some mem, [], r.rest⟩
        else recvBody env resp.status inBytes false mem r.rest

section Exits
variable {env : ResponseEnv} {inb : Inbound} {buff : Option (ℕ → Byte)} {buffSize : ℤ}

/-- The header was received whole and carries status 0; its length is an `int`. -/
structure HeaderOk (inb : Inbound) (inBytes : ℤ) : Prop where
  received : 11 ≤ inb.pending.length
  rest : (tcprecvdata inb sizeofHeader).rest.pending = inb.pending.drop 11
  status : (decodeHeader (inb.pending.take 11)).status = 0
  declared : inBytes = strtol 16 (inb.pending.take 8 ++ [0])
  nonneg : 0 ≤ inBytes

theorem headerOk (h : (tcprecvdata inb sizeofHeader).result = 1)
    (hstatus : (decodeHeader (tcprecvdata inb sizeofHeader).data).status = 0)
    (hlen : 0 ≤ (decodeHeader (tcprecvdata inb sizeofHeader).data).nInPackLen) :
    HeaderOk inb (decodeHeader (tcprecvdata inb sizeofHeader).data).nInPackLen := by
  obtain ⟨hdata, hrest, hreceived⟩ := tcprecvdata_received h
  have hfield : (decodeHeader (tcprecvdata inb sizeofHeader).data).nInPackLen =
      wrap32 (strtol 16 (inb.pending.take 8 ++ [0])) := by
    rw [hdata]
    simp [decodeHeader, TrackerHeader.nInPackLen, TRACKER_PROTO_PKG_LEN_SIZE, sizeofHeader,
      List.take_take]
  rw [hfield] at hlen ⊢
  have hdeclared : wrap32 (strtol 16 (inb.pending.take 8 ++ [0])) =
      strtol 16 (inb.pending.take 8 ++ [0]) :=
    wrap32_strtol_of_nonneg (by simp) (by simp) hlen
  exact ⟨hreceived, hrest, hdata ▸ hstatus, hdeclared, hlen⟩

/-- The ways out: an error before the body, an empty body, or the second receive into the caller's
buffer or into a fresh one. -/
theorem trackerRecvResponseInto_exits (env : ResponseEnv) (inb : Inbound)
    (buff : Option (ℕ → Byte)) (buffSize : ℤ) :
    let r := trackerRecvResponseInto env inb buff buffSize
    let h := tcprecvdata inb sizeofHeader
    (∃ e, e ≠ 0 ∧ r = ⟨e, 0, buff, [], h.rest⟩) ∨
    (HeaderOk inb 0 ∧ r = ⟨0, 0, buff, [], h.rest⟩) ∨
    ∃ (n : ℤ) (bMalloced : Bool) (mem : ℕ → Byte), HeaderOk inb n ∧ 0 < n ∧
      (bMalloced = true ∧ buff = none ∨ bMalloced = false ∧ buff = some mem ∧ n ≤ buffSize) ∧
      r = recvBody env 0 n bMalloced mem h.rest := by
  have hne (d : Errno) (hd : d ≠ 0) : errnoOr env.errno d ≠ 0 := errnoOr_ne_zero hd
  rw [trackerRecvResponseInto]
  dsimp only
  generalize hh : tcprecvdata inb sizeofHeader = h
  by_cases hone : h.result = 1
  swap
  · rw [if_pos hone]
    exact .inl ⟨_, hne EPIPE (by decide), rfl⟩
  rw [if_neg (not_not.mpr hone)]
  by_cases hstatus : (decodeHeader h.data).status = 0
  swap
  · rw [if_pos hstatus]
    exact .inl ⟨_, hstatus, rfl⟩
  rw [if_neg (not_not.mpr hstatus), hstatus]
  by_cases hlen : (decodeHeader h.data).nInPackLen < 0
  · rw [if_pos hlen]
    exact .inl ⟨_, hne EINVAL (by decide), rfl⟩
  rw [if_neg hlen]
  have hok : HeaderOk inb (decodeHeader h.data).nInPackLen := by
    subst hh
    exact headerOk hone hstatus (not_lt.mp hlen)
  by_cases hzero : (decodeHeader h.data).nInPackLen = 0
  · rw [if_pos hzero, hzero]
    exact .inr (.inl ⟨hzero ▸ hok, rfl⟩)
  rw [if_neg hzero]
  have hpos : 0 < (decodeHeader h.data).nInPackLen := by omega
  cases buff with
  | none =>
    by_cases hfails : env.mallocFails
    · rw [if_pos hfails]
      exact .inl ⟨_, hne ENOMEM (by decide), rfl⟩
    · rw [if_neg hfails]
      exact .inr (.inr ⟨_, true, env.fresh, hok, hpos, .inl ⟨rfl, rfl⟩, rfl⟩)
  | some mem =>
    dsimp only
    by_cases hfits : buffSize < (decodeHeader h.data).nInPackLen
    · rw [if_pos hfits]
      exact .inl ⟨_, hne EINVAL (by decide), rfl⟩
    · rw [if_neg hfits]
      exact .inr (.inr ⟨_, false, mem, hok, hpos, .inr ⟨rfl, rfl, not_lt.mp hfits⟩, rfl⟩)

/-- The ways out of the second receive. -/
theorem recvBody_exits (env : ResponseEnv) (n : ℤ) (bMalloced : Bool) (mem : ℕ → Byte)
    (inb : Inbound) :
    let r := recvBody env 0 n bMalloced mem inb
    let b := tcprecvdata inb n
    (b.result = 1 ∧ r = ⟨0, n, some (store mem 0 b.data), b.data, b.rest⟩) ∨
    ∃ e, e ≠ 0 ∧
      r = ⟨e, 0, if bMalloced then none else some (store mem 0 b.data), b.data, b.rest⟩ := by
  dsimp only
  rw [recvBody]
  by_cases hone : (tcprecvdata inb n).result = 1
  · exact .inl ⟨hone, if_neg (not_not.mpr hone)⟩
  · exact .inr ⟨_, errnoOr_ne_zero (by decide), if_pos hone⟩

/-- With a given buffer this is what its callers see of it. -/
theorem trackerRecvResponse_into (env : ResponseEnv) (inb : Inbound) (mem : ℕ → Byte)
    (buffSize : ℤ) :
    let r := trackerRecvResponseInto env inb (some mem) buffSize
    trackerRecvResponse env.errno inb buffSize =
      (r.rest, if r.result ≠ 0 then .error r.result else .ok r.stored) := by
  have hne (d : Errno) (hd : d ≠ 0) : errnoOr env.errno d ≠ 0 := errnoOr_ne_zero hd
  have hpipe := hne EPIPE (by decide)
  have hinval := hne EINVAL (by decide)
  rw [trackerRecvResponse, trackerRecvResponseInto]
  dsimp only
  generalize tcprecvdata inb sizeofHeader = h
  by_cases hone : h.result = 1
  swap
  · simp only [if_pos hone, if_pos hpipe]
  by_cases hstatus : (decodeHeader h.data).status = 0
  swap
  · simp only [if_neg (not_not.mpr hone), if_pos hstatus]
  simp only [if_neg (not_not.mpr hone), hstatus, ne_eq, not_true_eq_false, if_false]
  generalize (decodeHeader h.data).nInPackLen = n
  by_cases hlen : n < 0
  · simp only [if_pos hlen, hinval, not_false_eq_true, if_true]
  by_cases hzero : n = 0
  · simp only [if_neg hlen, if_pos hzero, not_true_eq_false, if_false]
  by_cases hfits : buffSize < n
  · simp only [if_neg hlen, if_neg hzero, if_pos hfits, hinval, not_false_eq_true, if_true]
  simp only [if_neg hlen, if_neg hzero, if_neg hfits, recvBody]
  by_cases hbody : (tcprecvdata h.rest n).result = 1
  · simp only [if_neg (not_not.mpr hbody), not_true_eq_false, if_false]
  · simp only [if_pos hbody, hpipe, not_false_eq_true, if_true]

end Exits

section Consistency

/-- What a call of `tracker_recv_response` leaves: a given buffer takes no more than its size;
result 0 comes with the whole body in the buffer and its declared length; any other result
with length 0 and no new buffer. -/
structure Consistent (inb : Inbound) (buff : Option (ℕ → Byte)) (buffSize : ℤ)
    (r : RecvResponse) : Prop where
  bounded : ∀ mem, buff = some mem →
    r.stored.length ≤ buffSize.toNat ∧ r.buff = some (store mem 0 r.stored)
  success : r.result = 0 → HeaderOk inb r.inBytes ∧
    r.stored = (inb.pending.drop 11).take r.inBytes.toNat ∧
    r.stored.length = r.inBytes.toNat ∧
    r.rest.pending = (inb.pending.drop 11).drop r.inBytes.toNat ∧
    (r.inBytes = 0 → r.buff = buff) ∧
    (0 < r.inBytes → ∃ mem, r.buff = some mem ∧ block mem 0 r.inBytes.toNat = r.stored)
  failure : r.result ≠ 0 → r.inBytes = 0 ∧ (buff = none → r.buff = none)

variable {inb : Inbound} {buff : Option (ℕ → Byte)} {buffSize : ℤ}

theorem consistent_refused {e : Errno} (he : e ≠ 0) (rest : Inbound) :
    Consistent inb buff buffSize ⟨e, 0, buff, [], rest⟩ where
  bounded mem hmem := ⟨Nat.zero_le _, by simp [hmem]⟩
  success h := absurd h he
  failure _ := ⟨rfl, id⟩

theorem consistent_empty (hok : HeaderOk inb 0) :
    Consistent inb buff buffSize ⟨0, 0, buff, [], (tcprecvdata inb sizeofHeader).rest⟩ where
  bounded mem hmem := ⟨Nat.zero_le _, by simp [hmem]⟩
  success _ := ⟨hok, rfl, rfl, hok.rest, fun _ => rfl, fun h => absurd h (lt_irrefl 0)⟩
  failure h := absurd rfl h

theorem consistent_body (env : ResponseEnv) {n : ℤ} {bMalloced : Bool} {mem : ℕ → Byte}
    (hok : HeaderOk inb n) (hpos : 0 < n)
    (hbuff : bMalloced = true ∧ buff = none ∨ bMalloced = false ∧ buff = some mem ∧ n ≤ buffSize) :
    Consistent inb buff buffSize
      (recvBody env 0 n bMalloced mem (tcprecvdata inb sizeofHeader).rest) := by
  generalize hh : (tcprecvdata inb sizeofHeader).rest = h
  have hrest : h.pending = inb.pending.drop 11 := hh ▸ hok.rest
  have hle : (tcprecvdata h n).data.length ≤ n.toNat :=
    (recvLoop_length h.events h.pending n.toNat).1
  have hgiven : ∀ mem', buff = some mem' → bMalloced = false ∧ mem = mem' ∧ n ≤ buffSize := by
    intro mem' hmem
    rcases hbuff with ⟨-, hnone⟩ | ⟨hf, hsome, hn⟩
    · rw [hnone] at hmem
      cases hmem
    · exact ⟨hf, Option.some.inj (hsome.symm.trans hmem), hn⟩
  rcases recvBody_exits env n bMalloced mem h with ⟨hone, hr⟩ | ⟨e, he, hr⟩
  · obtain ⟨hdata, hpending, hlen⟩ := tcprecvdata_received hone
    have hfull : (tcprecvdata h n).data.length = n.toNat :=
      (recvLoop_length h.events h.pending n.toNat).2 hone
    rw [hr]
    constructor
    · intro mem' hmem
      obtain ⟨-, rfl, hn⟩ := hgiven mem' hmem
      exact ⟨hle.trans (Int.toNat_le_toNat hn), rfl⟩
    · intro _
      refine ⟨hok, by rw [← hrest, hdata], hfull, by rw [← hrest, hpending], ?_, ?_⟩
      · exact fun h0 => absurd h0 hpos.ne'
      · exact fun _ => ⟨_, rfl, hfull ▸ block_store mem 0 (tcprecvdata h n).data⟩
    · exact fun h0 => absurd rfl h0
  · rw [hr]
    constructor
    · intro mem' hmem
      obtain ⟨rfl, rfl, hn⟩ := hgiven mem' hmem
      exact ⟨hle.trans (Int.toNat_le_toNat hn), rfl⟩
    · exact fun h0 => absurd h0 he
    · refine fun _ => ⟨rfl, fun hnone => ?_⟩
      rcases hbuff with ⟨rfl, -⟩ | ⟨-, hsome, -⟩
      · rfl
      · rw [hnone] at hsome
        cases hsome

/-- Every way out leaves length, pointer and result consistent. -/
theorem trackerRecvResponseInto_consistent (env : ResponseEnv) (inb : Inbound)
    (buff : Option (ℕ → Byte)) (buffSize : ℤ) :
    Consistent inb buff buffSize (trackerRecvResponseInto env inb buff buffSize) := by
  rcases trackerRecvResponseInto_exits env inb buff buffSize with
    ⟨e, he, hr⟩ | ⟨hok, hr⟩ | ⟨n, bMalloced, mem, hok, hpos, hbuff, hr⟩
  · exact hr ▸ consistent_refused he _
  · exact hr ▸ consistent_empty hok
  · exact hr ▸ consistent_body env hok hpos hbuff

/-- A body of three bytes behind its header, received into a fresh buffer. -/
example :
    let header := ascii "00000003" ++ [0, 80, 0]
    let r := trackerRecvResponseInto {} ⟨header ++ ascii "abcd", [.chunk 4]⟩ none 0
    r.result = 0 ∧ r.inBytes = 3 ∧ r.stored = ascii "abc" ∧ r.rest.pending = ascii "d" := by
  decide +kernel

end Consistency

end DemoStorage.TrackerResponses
