import DemoStorage.ConnectionFraming

/-!
# Uploading a file and downloading it again

A client lays out its package as two length fields, the metadata, a pad byte and the
content. As built the alphabet of the name generator is empty, so every generated name is
the name of a directory and no upload can succeed. Whatever the alphabet, the handler
receives eight bytes of the body only.
-/

namespace DemoStorage.UploadRoundTrip
open ByteStrings LexicalPaths PosixFileTree SocketTransfers MetadataRecords GeneratedNames
open DaemonState BinlogWriting RequestHandlers ConnectionFraming

/-- What a client wants to store, and how it fills its package. -/
structure UploadCall where
  metaBlock : Bytes
  content : Bytes
  pad : Byte
  /-- what the two length fields hold behind their NUL -/
  metaFill : ℕ → Byte
  sizeFill : ℕ → Byte

def lengthField (n : ℕ) (fill : ℕ → Byte) : Bytes :=
  fillField TRACKER_PROTO_PKG_LEN_SIZE (hexadecimal n ++ [0]) fill

/-- The package of an upload request. -/
def UploadCall.body (u : UploadCall) : Bytes :=
  lengthField u.metaBlock.length u.metaFill ++ lengthField u.content.length u.sizeFill ++
    u.metaBlock ++ u.pad :: u.content

/-- The package of a download request. -/
def downloadBody (cfg : Config) (filename : Bytes) : Bytes :=
  cfg.groupName ++ List.replicate (FDFS_GROUP_NAME_MAX_LEN.toNat - cfg.groupName.length) 0 ++
    filename

/-- The upload is answered with status 0 and a name, and a download of that name with status
0 and the content. -/
def RoundTrip (cfg : Config) (u : UploadCall) (env env' : RequestEnv) (w : World) : Prop :=
  let up := storageUploadFile cfg env u.body.length ⟨u.body, []⟩ ⟨[], []⟩ w
  ∃ filename, up.outbound.sent = replyHeader env filename.length 0 ++ filename ∧
    let req := downloadBody cfg filename
    let down := storageDownloadFile cfg env' req.length ⟨req, []⟩ ⟨[], []⟩ up.world
    down.outbound.sent = replyHeader env' u.content.length 0 ++ u.content

/-- The circumstances of the round trip: the length fits the header, the directories exist,
the names tried are not in use, the binlog is open and nothing fails. -/
structure Premises (cfg : Config) (u : UploadCall) (env : RequestEnv) (w : World) : Prop where
  size : (u.body.length : ℤ) ≤ INT_MAX
  dirs : ∀ a b, w.tree.isDir (lexical w.cwd (dataPath cfg (hexPair a ++ slash :: hexPair b))) = true
  unused : ∀ i, w.tree.content (lexical w.cwd (dataPath cfg
    (cstr (storageGenFilename cfg.base64 (env.clock i).1 (env.clock i).2 u.content.length)))) = none
  binlog : ∃ l, w.fpBinlog = some ⟨l, true⟩ ∧ (w.tree.content l).isSome
  noFault : env.mallocFails = false ∧ env.metaMalloc = false ∧ env.write = {} ∧
    env.metaWrite = {} ∧ env.log = {} ∧ env.metaLog = {}

/-- The server with the static state the program starts with. -/
def asBuilt (cfg : Config) : Config := { cfg with base64 := initialState }

/-- The status byte of a reply. -/
theorem replyHeader_status (env : RequestEnv) (pkgLen : ℤ) (status : Errno) (rest : Bytes) :
    (replyHeader env pkgLen status ++ rest)[10]? = some status := by
  have hl := length_fillField TRACKER_PROTO_PKG_LEN_SIZE (hexadecimal pkgLen ++ [0]) env.stack
  have h9 : TRACKER_PROTO_PKG_LEN_SIZE = 9 := rfl
  rw [replyHeader, List.append_assoc, List.getElem?_append_right (by omega), hl]
  rfl

theorem sendLoop_nil (data : Bytes) : sendLoop [] data = ⟨1, data, []⟩ := by
  cases data <;> rfl

theorem genUnusedFilename_eq {cfg : Config} {clock : ℕ → ℤ × ℤ} {fileSize : ℤ} {k i : ℕ}
    {w : World} {filename : Bytes}
    (h : (genUnusedFilename cfg clock fileSize k i w).2 = some filename) :
    ∃ j, filename = storageGenFilename cfg.base64 (clock j).1 (clock j).2 fileSize := by
  induction k generalizing i w with
  | zero => cases h
  | succ k ih =>
    simp only [genUnusedFilename] at h
    split at h
    · exact ih h
    · exact ⟨i, (Option.some.inj h).symm⟩

theorem writeToFile_slash_ne_zero (f : WriteFaults) (w : World) (p buff : Bytes) :
    (writeToFile f w (p ++ [slash]) buff).2 ≠ 0 := by
  have hne : errnoOr f.errno ENOENT ≠ 0 := errnoOr_ENOENT_ne_zero _
  unfold writeToFile
  split
  · exact hne
  · split
    · exact hne
    · rename_i h
      exact absurd h (w.tree.openWrite_slash _ _ _ _)

/-- As built no file can be saved: the C string of a generated name ends in a slash. -/
theorem storageSaveFile_asBuilt_ne_zero (cfg : Config) (env : RequestEnv) (w : World)
    (u : UploadRequest) : (storageSaveFile (asBuilt cfg) env w u).2.1 ≠ 0 := by
  unfold storageSaveFile
  have hENOENT : ENOENT ≠ 0 := by decide
  split
  · exact hENOENT
  · rename_i w' filename h
    obtain ⟨j, rfl⟩ := genUnusedFilename_eq (congrArg Prod.snd h)
    have hname : cstr (storageGenFilename (asBuilt cfg).base64 (env.clock j).1 (env.clock j).2
        u.content.length) = ascii "00/00" ++ [slash] := by
      rw [asBuilt, storageGenFilename_initialState]
      decide
    have hpath : dataPath (asBuilt cfg) (ascii "00/00" ++ [slash]) =
        dataPath cfg (ascii "00/00") ++ [slash] := by simp [dataPath, asBuilt]
    have := writeToFile_slash_ne_zero env.write w' (dataPath cfg (ascii "00/00")) u.content
    simp only [hname, hpath, saveFileAs, this, ne_eq, not_false_eq_true, if_true]

theorem uploadFile_asBuilt (cfg : Config) (env : RequestEnv) (w : World) (u : UploadRequest) :
    ∃ status : Errno, status ≠ 0 ∧ (uploadFile (asBuilt cfg) env w u).2.1 = some status := by
  have := storageSaveFile_asBuilt_ne_zero cfg env w u
  refine ⟨_, this, ?_⟩
  simp only [uploadFile, this, ne_eq, not_false_eq_true, if_true]

theorem RoundTrip.status {cfg : Config} {u : UploadCall} {env env' : RequestEnv} {w : World}
    (h : RoundTrip cfg u env env' w) :
    (storageUploadFile cfg env u.body.length ⟨u.body, []⟩ ⟨[], []⟩ w).outbound.sent[10]? =
      some 0 := by
  obtain ⟨filename, hsent, -⟩ := h
  rw [hsent]
  exact replyHeader_status env filename.length 0 filename

/-- As built the reply to an upload carries an error status. -/
theorem storageUploadFile_asBuilt_status (cfg : Config) (env : RequestEnv) (n : ℤ) (body : Bytes)
    (w : World) : ∃ status : Errno, status ≠ 0 ∧
      (storageUploadFile (asBuilt cfg) env n ⟨body, []⟩ ⟨[], []⟩ w).outbound.sent[10]? =
        some status := by
  have hstatus (status : Errno) : (replyHeader env 0 status)[10]? = some status := by
    simpa using replyHeader_status env 0 status []
  have hheard : (recvAllocated env 0 sizeofPointer n ⟨body, []⟩).1.Heard :=
    receiveBody_ideal_heard env STORAGE_PROTO_CMD_UPLOAD_FILE n body
  simp only [storageUploadFile, withBody, Outbound.awaiting_heard hheard, tcpsenddata, sendLoop_nil,
    List.nil_append]
  cases hreq : (recvAllocated env 0 sizeofPointer n ⟨body, []⟩).2 with
  | error e =>
    have he : e ≠ 0 := @receiveBody_error_ne_zero env STORAGE_PROTO_CMD_UPLOAD_FILE n ⟨body, []⟩ e hreq
    exact ⟨e, he, by simp [Except.bind, hstatus]⟩
  | ok data =>
    cases hp : parseUpload n (uploadBuffer env n data) with
    | error e =>
      have he := parseUpload_error_ne_zero hp
      exact ⟨e, he, by simp [Except.bind, hp, hstatus]⟩
    | ok u =>
      obtain ⟨status, hne, hu⟩ := uploadFile_asBuilt cfg env w u
      exact ⟨status, hne, by simp [Except.bind, hp, hu, hne, hstatus]⟩

/-- As built no upload round-trips. -/
theorem no_roundTrip_asBuilt (cfg : Config) (u : UploadCall) (env env' : RequestEnv) (w : World) :
    ¬ RoundTrip (asBuilt cfg) u env env' w := by
  intro h
  obtain ⟨status, hne, hs⟩ := storageUploadFile_asBuilt_status cfg env u.body.length u.body w
  exact hne (Option.some.inj (hs.symm.trans h.status))

/-- A store with every directory of depth up to five, and a binlog. -/
def wideTree : FileTree where
  node l := if l.length ≤ 5 then some .dir
    else if l = [[1], [1], [1], [1], [1], [1]] then some (.file []) else none
  root := rfl
  parent l c h := by
    by_cases hl : (l ++ [c]).length ≤ 5
    · simp at hl
      exact if_pos (by omega)
    · simp only [hl, if_false] at h
      split_ifs at h with he
      · have := congrArg List.length he
        simp at this
        exact if_pos (by omega)
      · cases h

def wideWorld : World :=
  { World.initial wideTree [] with fpBinlog := some ⟨[[1], [1], [1], [1], [1], [1]], true⟩ }

private theorem wideTree_dirs (a b : ℕ) : wideTree.isDir
    (lexical [] (dataPath (asBuilt sampleConfig) (hexPair a ++ slash :: hexPair b))) = true := by
  have hp : dataPath (asBuilt sampleConfig) (hexPair a ++ slash :: hexPair b) =
      ascii "/b/data" ++ slash :: (hexPair a ++ slash :: hexPair b) := by
    simp [dataPath, asBuilt, sampleConfig, ascii, slash]
  have hbase : components (ascii "/b/data") = [.stay, .name (ascii "b"), .name (ascii "data")] := by
    decide
  have hs (n : ℕ) : (components (hexPair n)).length = 1 := by
    rw [components_of_notMem (slash_notMem_hexPair n), List.length_singleton]
  have hlen := @length_resolveFrom_le Bytes [] (components (ascii "/b/data" ++ slash ::
    (hexPair a ++ slash :: hexPair b)))
  rw [components_append_slash, components_append_slash, hbase] at hlen
  rw [List.length_append, List.length_append, hs, hs] at hlen
  rw [hp, lexical]
  have hstart : start [] (ascii "/b/data" ++ slash :: (hexPair a ++ slash :: hexPair b)) = [] := rfl
  rw [hstart, components_append_slash, components_append_slash, hbase]
  exact decide_eq_true (if_pos hlen)

def helloUpload : UploadCall := ⟨[], ascii "hello", 0, fun _ => 0, fun _ => 0⟩

/-- Five bytes, uploaded to a store that meets every premise, do not come back. -/
theorem helloUpload_no_roundTrip :
    Premises (asBuilt sampleConfig) helloUpload {} wideWorld ∧
      ¬ RoundTrip (asBuilt sampleConfig) helloUpload {} {} wideWorld := by
  refine ⟨⟨by decide +kernel, wideTree_dirs, fun i => ?_, ?_, ?_⟩, fun h => ?_⟩
  · simp only [asBuilt, storageGenFilename_initialState]
    decide +kernel
  · exact ⟨_, rfl, by decide +kernel⟩
  · exact ⟨rfl, rfl, rfl, rfl, rfl, rfl⟩
  · exact absurd h.status (by decide +kernel)

/-- Whatever the alphabet, an upload depends on the first eight bytes of its body only. -/
theorem storageUploadFile_ignores_body (cfg : Config) (env : RequestEnv) (n : ℤ) {body body' : Bytes}
    (h : body.take 8 = body'.take 8) (hl : 8 ≤ body.length) (hl' : 8 ≤ body'.length)
    (out : Outbound) (w : World) :
    (storageUploadFile cfg env n ⟨body, []⟩ out w).outcome =
      (storageUploadFile cfg env n ⟨body', []⟩ out w).outcome := by
  have hr : ∀ b : Bytes, 8 ≤ b.length → (receive env ⟨b, []⟩ sizeofPointer).2 = .ok (b.take 8) := by
    intro b hb
    have h8 : sizeofPointer.toNat = 8 := rfl
    simp [receive, tcprecvdata, recvLoop_nil, h8, hb]
  have hrecv : (recvAllocated env 0 sizeofPointer n ⟨body, []⟩).2 =
      (recvAllocated env 0 sizeofPointer n ⟨body', []⟩).2 := by
    unfold recvAllocated
    split_ifs
    · rfl
    · rfl
    · rw [hr body hl, hr body' hl', h]
  have hheard (b : Bytes) : (recvAllocated env 0 sizeofPointer n ⟨b, []⟩).1.Heard :=
    receiveBody_ideal_heard env STORAGE_PROTO_CMD_UPLOAD_FILE n b
  simp only [storageUploadFile, withBody_outcome, Outbound.awaiting_heard (hheard _), hrecv]

end DemoStorage.UploadRoundTrip
