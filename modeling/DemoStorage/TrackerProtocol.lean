import DemoStorage.ServiceThread

/-!
# Packages exchanged with a tracker

A reporter asks its tracker for the server to sync from, and tells it the server later. The
answer is received in two parts, header and body, and a full answer is confirmed by a third
package; the globals are written before that one is sent.
-/

namespace DemoStorage.TrackerProtocol
open ByteStrings PosixFileTree SocketTransfers DaemonState RequestHandlers ServiceThread

def TRACKER_PROTO_CMD_STORAGE_RESP : Byte := 80
def TRACKER_PROTO_CMD_STORAGE_BEAT : Byte := 83
def TRACKER_PROTO_CMD_STORAGE_SYNC_DEST_REQ : Byte := 87
def TRACKER_PROTO_CMD_STORAGE_SYNC_NOTIFY : Byte := 88

def FDFS_IPADDR_SIZE : ℕ := 16

/-- `sizeof(TrackerStorageSyncReqBody)`. -/
def sizeofSyncReqBody : ℕ := FDFS_IPADDR_SIZE + TRACKER_PROTO_PKG_LEN_SIZE

/-- `g_sync_src_ip_addr` and `g_sync_until_timestamp`. -/
structure SyncSource where
  ipAddr : Bytes
  untilTimestamp : ℤ
  deriving DecidableEq

/-- The globals as the process starts. -/
def noSource : SyncSource := ⟨[], 0⟩

/-- The source a full body names; the last byte of each field is overwritten with a NUL. -/
def readSource (body : Bytes) : SyncSource where
  ipAddr := cstr (body.take (FDFS_IPADDR_SIZE - 1))
  untilTimestamp := wrap32 (strtol 16
    ((body.drop FDFS_IPADDR_SIZE).take (TRACKER_PROTO_PKG_LEN_SIZE - 1) ++ [0]))

/-- A field of a cleared package with a text at its start. -/
def padField (n : ℕ) (text : Bytes) : Bytes := text ++ List.replicate (n - text.length) 0

def requestHeader (pkgLen : Bytes) (cmd : Byte) : Bytes :=
  padField TRACKER_PROTO_PKG_LEN_SIZE pkgLen ++ [cmd, 0]

/-- The package of `tracker_sync_notify`. -/
def syncNotifyPackage (s : SyncSource) : Bytes :=
  requestHeader (hexadecimal sizeofSyncReqBody) TRACKER_PROTO_CMD_STORAGE_SYNC_NOTIFY ++
    padField FDFS_IPADDR_SIZE s.ipAddr ++
    padField TRACKER_PROTO_PKG_LEN_SIZE (hexadecimal s.untilTimestamp)

/-- The first package of the exchange, and the one that confirms a full answer. -/
def syncDestRequest : Bytes := requestHeader [] TRACKER_PROTO_CMD_STORAGE_SYNC_DEST_REQ
def syncDestConfirmation : Bytes := requestHeader [48] TRACKER_PROTO_CMD_STORAGE_RESP

/-- Send a package to the tracker. -/
def sendPackage (errno : Errno) (out : Outbound) (package : Bytes) : Outbound × Errno :=
  let s := tcpsenddata out (some package)
  (s.2, if s.1 ≠ 1 then errnoOr errno EPIPE else 0)

/-- The body of a response that fits the buffer; it is empty when the header declares none. -/
def trackerRecvResponse (errno : Errno) (inb : Inbound) (buffSize : ℤ) :
    Inbound × Except Errno Bytes :=
  let r := tcprecvdata inb sizeofHeader
  if r.result ≠ 1 then (r.rest, .error (errnoOr errno EPIPE))
  else
    let resp := decodeHeader r.data
    let inBytes := resp.nInPackLen
    if resp.status ≠ 0 then (r.rest, .error resp.status)
    else if inBytes < 0 then (r.rest, .error (errnoOr errno EINVAL))
    else if inBytes = 0 then (r.rest, .ok [])
    else if buffSize < inBytes then (r.rest, .error (errnoOr errno EINVAL))
    else
      let b := tcprecvdata r.rest inBytes
      (b.rest, if b.result ≠ 1 then .error (errnoOr errno EPIPE) else .ok b.data)

/-- What comes of the answer to a request for a source. -/
inductive DestAnswer where
  | failed (e : Errno)
  | empty
  | source (s : SyncSource)
  /-- the process dies: the message for a wrong length formats a line number as a string -/
  | fatal

def recvSyncDest (errno : Errno) (inb : Inbound) : Inbound × DestAnswer :=
  let r := trackerRecvResponse errno inb sizeofSyncReqBody
  (r.1, match r.2 with
    | .error e => .failed e
    | .ok body =>
      if body.length = 0 then .empty
      else if body.length ≠ sizeofSyncReqBody then .fatal
      else .source (readSource body))

/-- `errno` as read behind the logging of each of the three failures. -/
structure ExchangeErrnos where
  request : Errno := 0
  answer : Errno := 0
  confirm : Errno := 0

/-- The whole exchange, with the globals before and behind it; without a result it does not
return. -/
def trackerSyncDestReq (e : ExchangeErrnos) (inb : Inbound) (out : Outbound) (g : SyncSource) :
    Inbound × Outbound × SyncSource × Option Errno :=
  let q := sendPackage e.request out syncDestRequest
  if q.2 ≠ 0 then (inb, q.1, g, some q.2)
  else
    let a := recvSyncDest e.answer inb
    match a.2 with
    | .failed r => (a.1, q.1, g, some r)
    | .empty => (a.1, q.1, g, some 0)
    | .fatal => (a.1, q.1, g, none)
    | .source s =>
      let c := sendPackage e.confirm q.1 syncDestConfirmation
      (a.1, c.1, s, some c.2)

theorem sendPackage_eq_zero {errno : Errno} {out : Outbound} {package : Bytes} :
    (sendPackage errno out package).2 = 0 ↔ (tcpsenddata out (some package)).1 = 1 := by
  have hne : errnoOr errno EPIPE ≠ 0 := errnoOr_ne_zero (by decide)
  simp only [sendPackage]
  split_ifs with h
  · exact iff_of_false hne h
  · exact iff_of_true rfl (not_not.mp h)

theorem trackerRecvResponse_ne_zero {errno : Errno} {inb : Inbound} {buffSize : ℤ} {e : Errno}
    (h : (trackerRecvResponse errno inb buffSize).2 = .error e) : e ≠ 0 := by
  have hne (d : Errno) (hd : d ≠ 0) : errnoOr errno d ≠ 0 := errnoOr_ne_zero hd
  simp only [trackerRecvResponse] at h
  split_ifs at h with h1 h2 h3 h4 h5 h6
  · cases h
    exact hne _ (by decide)
  · cases h
    exact h2
  · cases h
    exact hne _ (by decide)
  · cases h
    exact hne _ (by decide)
  · cases h
    exact hne _ (by decide)

/-- A failed answer has a status other than 0. -/
theorem recvSyncDest_ne_zero {errno : Errno} {inb : Inbound} {e : Errno}
    (h : (recvSyncDest errno inb).2 = .failed e) : e ≠ 0 := by
  simp only [recvSyncDest] at h
  split at h
  · rename_i hr
    cases h
    exact trackerRecvResponse_ne_zero hr
  · split_ifs at h

end DemoStorage.TrackerProtocol
