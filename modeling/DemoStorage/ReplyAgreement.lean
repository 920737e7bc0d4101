import DemoStorage.StoreRequests
import DemoStorage.UploadRoundTrip

/-!
# Replies agree with the results of the handlers

While the socket takes what it is given, a reply is a header of eleven bytes and the body the
header declares, and the handler returns 0 when the status it sent is 0. There are three
exceptions: the status of a file without metadata is set to 0, and no buffer is there to be
sent; metadata for a file that is there and some writes of the binlog end the process; and to a
client that waits for its reply nothing is sent at all.
-/

namespace DemoStorage.ReplyAgreement
open ByteStrings PosixFileTree SocketTransfers GeneratedNames DaemonState BinlogWriting
open RequestHandlers ServiceThread ConnectionFraming StoreRequests UploadRoundTrip

/-- No select and no write fails. -/
def Accepting (out : Outbound) : Prop := ∀ e ∈ out.events, ∃ k, e = .accept k

/-- What a handler sent behind `before` is a header and the body it declares, and agrees with
the result; `copies` holds for the handler that keeps the connection on `EEXIST`. -/
def Agrees (copies : Prop) (before : Bytes) (out : Outbound) (result : Errno) : Prop :=
  ∃ header body, out.sent = before ++ (header ++ body) ∧ (header.length : ℤ) = sizeofHeader ∧
    (decodeHeader header).nInPackLen = body.length ∧
    ((decodeHeader header).status ≠ 0 → body = []) ∧
    (result = 0 ↔ (decodeHeader header).status = 0 ∨
      copies ∧ (decodeHeader header).status = EEXIST)

section Sending

theorem sendLoop_accepting {evs : List SendEvent} (h : ∀ e ∈ evs, ∃ k, e = .accept k)
    (data : Bytes) : (sendLoop evs data).result = 1 ∧ (sendLoop evs data).written = data ∧
      ∀ e ∈ (sendLoop evs data).events, ∃ k, e = .accept k := by
  induction evs generalizing data with
  | nil => simp [sendLoop_nil]
  | cons e evs ih =>
    obtain ⟨k, rfl⟩ := h _ List.mem_cons_self
    have ht : ∀ e ∈ evs, ∃ k, e = .accept k := fun e he => h e (List.mem_cons_of_mem _ he)
    cases data with
    | nil => exact ⟨rfl, rfl, h⟩
    | cons b data =>
      obtain ⟨h1, h2, h3⟩ := ih ht ((b :: data).drop k)
      simp only [sendLoop, h1, h2, List.take_append_drop]
      exact ⟨trivial, trivial, h3⟩

/-- An accepting socket takes a whole buffer. -/
theorem tcpsenddata_accepting {out : Outbound} (h : Accepting out) (data : Bytes) :
    ∃ out', tcpsenddata out (some data) = (1, out') ∧ out'.sent = out.sent ++ data ∧
      Accepting out' := by
  obtain ⟨h1, h2, h3⟩ := sendLoop_accepting h data
  refine ⟨⟨out.sent ++ data, (sendLoop out.events data).events⟩, ?_, rfl, h3⟩
  simp only [tcpsenddata, h1, h2]

theorem length_replyHeader (env : RequestEnv) (n : ℤ) (status : Errno) :
    (replyHeader env n status).length = 11 := by
  rw [replyHeader, List.length_append, length_fillField]
  rfl

theorem replyHeader_ne_nil (env : RequestEnv) (n : ℤ) (status : Errno) :
    replyHeader env n status ≠ [] :=
  List.ne_nil_of_length_pos (by rw [length_replyHeader]; decide)

/-- What the other side decodes from a reply header. -/
theorem decodeHeader_replyHeader (env : RequestEnv) {n : ℤ} (h0 : 0 ≤ n) (h1 : n ≤ INT_MAX)
    (status : Errno) : (decodeHeader (replyHeader env n status)).nInPackLen = n ∧
      (decodeHeader (replyHeader env n status)).status = status := by
  have hl := length_fillField TRACKER_PROTO_PKG_LEN_SIZE (hexadecimal n ++ [0]) env.stack
  have h9 : TRACKER_PROTO_PKG_LEN_SIZE = 9 := rfl
  constructor
  · exact nInPackLen_fillField h0 h1 env.stack _
  · have hdrop : (replyHeader env n status).drop 10 = [status] := by
      rw [replyHeader, List.drop_append, List.drop_of_length_le (by omega), hl]
      rfl
    rw [decodeHeader, hdrop]
    rfl

theorem agrees_of_sent {copies : Prop} {env : RequestEnv} {out out' : Outbound} {result : Errno}
    (status : Errno) (body : Bytes)
    (hsent : out'.sent = out.sent ++ (replyHeader env body.length status ++ body))
    (hlen : (body.length : ℤ) ≤ INT_MAX) (hbody : status ≠ 0 → body = [])
    (hres : result = 0 ↔ status = 0 ∨ copies ∧ status = EEXIST) :
    Agrees copies out.sent out' result := by
  obtain ⟨hn, hs⟩ := decodeHeader_replyHeader env (Int.natCast_nonneg body.length) hlen status
  refine ⟨replyHeader env body.length status, body, hsent, ?_, hn, ?_, ?_⟩
  · rw [length_replyHeader]
    rfl
  · rwa [hs]
  · rwa [hs]

theorem sendHeaderReply_agrees (env : RequestEnv) {out : Outbound} (h : Accepting out)
    (status : Errno) : Agrees False out.sent (sendHeaderReply env out status).1
      (sendHeaderReply env out status).2 := by
  obtain ⟨out', hsend, hsent, -⟩ := tcpsenddata_accepting h (replyHeader env 0 status)
  simp only [sendHeaderReply, hsend]
  apply agrees_of_sent status []
  · simpa using hsent
  · decide
  · intro
    rfl
  · simp

/-- A reply with a file agrees unless its status is 0 and there is no buffer. -/
theorem sendFileReply_agrees_iff (env : RequestEnv) {out : Outbound} (h : Accepting out)
    {status : Errno} {fileBuff : Option Bytes} (hnone : status ≠ 0 → fileBuff = none)
    (hlen : ((fileBuff.getD []).length : ℤ) ≤ INT_MAX) :
    Agrees False out.sent (sendFileReply env out status fileBuff).1
      (sendFileReply env out status fileBuff).2 ↔ (status = 0 → fileBuff ≠ none) := by
  obtain ⟨out1, hsend1, hsent1, hacc⟩ := tcpsenddata_accepting h
    (replyHeader env (fileBuff.getD []).length status)
  by_cases h0 : status = 0
  · subst h0
    cases fileBuff with
    | none =>
      refine iff_of_false ?_ (by simp)
      rintro ⟨header, body, hsent, hl, -, -, hres⟩
      have hne : errnoOr env.sendErrno EPIPE ≠ 0 := errnoOr_ne_zero (by decide)
      simp only [sendFileReply, hsend1] at hsent hres
      have hheader : header = replyHeader env 0 0 := by
        have heq := List.append_cancel_left (hsent.symm.trans hsent1)
        have hl11 : header.length = (replyHeader env 0 0).length := by
          rw [length_replyHeader]
          exact Int.ofNat.inj hl
        exact (List.append_inj (heq.trans (List.append_nil _).symm) hl11).1
      have hstatus := (decodeHeader_replyHeader env le_rfl (by decide) 0).2
      rw [hheader, hstatus] at hres
      exact hne (hres.mpr (.inl rfl))
    | some b =>
      refine iff_of_true ?_ (by simp)
      obtain ⟨out2, hsend2, hsent2, -⟩ := tcpsenddata_accepting hacc b
      simp only [Option.getD_some] at hsend1 hsent1 hlen
      have hreply : sendFileReply env out 0 (some b) = (out2, 0) := by
        simp [sendFileReply, hsend1, hsend2]
      rw [hreply]
      apply agrees_of_sent 0 b
      · rw [hsent2, hsent1, List.append_assoc]
      · exact hlen
      · intro hn
        exact absurd rfl hn
      · simp
  · obtain rfl := hnone h0
    refine iff_of_true ?_ fun h => absurd h h0
    have hreply : sendFileReply env out status none = (out1, status) := by
      rw [sendFileReply]
      simp only [hsend1]
      simp [h0]
    rw [hreply]
    apply agrees_of_sent status []
    · simpa using hsent1
    · exact hlen
    · intro
      rfl
    · simp [h0]

/-- Of a reply whose wait hears nothing no byte is sent, and its handler does not return 0. -/
theorem sendHeaderReply_unheard {s : Inbound} (h : ¬ s.Heard) (env : RequestEnv) (out : Outbound)
    (status : Errno) : (sendHeaderReply env (out.awaiting s) status).1.sent = out.sent ∧
      (sendHeaderReply env (out.awaiting s) status).2 ≠ 0 := by
  obtain ⟨hres, hsent⟩ := tcpsenddata_unheard h out (replyHeader_ne_nil env 0 status)
  refine ⟨hsent, ?_⟩
  simp only [sendHeaderReply, hres, ne_eq, not_false_eq_true, if_true]
  exact errnoOr_ne_zero (by decide)

theorem sendFileReply_unheard {s : Inbound} (h : ¬ s.Heard) (env : RequestEnv) (out : Outbound)
    (status : Errno) (fileBuff : Option Bytes) :
    (sendFileReply env (out.awaiting s) status fileBuff).1.sent = out.sent ∧
      (sendFileReply env (out.awaiting s) status fileBuff).2 ≠ 0 := by
  obtain ⟨hres, hsent⟩ := tcpsenddata_unheard h out
    (replyHeader_ne_nil env (fileBuff.getD []).length status)
  simp only [sendFileReply, hres, ne_eq, not_false_eq_true, if_true]
  exact ⟨hsent, errnoOr_ne_zero (by decide)⟩

theorem replyWhenAlive_unheard {before : Bytes} {out : Outbound} {send : Errno → Outbound × Errno}
    (hout : out.sent = before) (h : ∀ s, (send s).1.sent = before ∧ (send s).2 ≠ 0)
    (status : Option Errno) : (replyWhenAlive out status send).1.sent = before ∧
      (replyWhenAlive out status send).2 ≠ 0 := by
  cases status with
  | none => exact ⟨hout, show SIGSEGV ≠ 0 by decide⟩
  | some s => exact h s

/-- Where nothing is sent, nothing agrees. -/
theorem not_agrees_of_sent {copies : Prop} {before : Bytes} {out : Outbound} {result : Errno}
    (h : out.sent = before) : ¬ Agrees copies before out result := by
  rintro ⟨header, body, hsent, hlen, -⟩
  have hlength := congrArg List.length (h.symm.trans hsent)
  simp only [List.length_append] at hlength
  simp only [sizeofHeader] at hlen
  omega

/-- A reply that agrees for every status agrees when there is one. -/
theorem replyWhenAlive_agrees_iff {copies : Prop} {before : Bytes} {out : Outbound}
    {send : Errno → Outbound × Errno} (hout : out.sent = before)
    (h : ∀ s, Agrees copies before (send s).1 (send s).2) (status : Option Errno) :
    Agrees copies before (replyWhenAlive out status send).1 (replyWhenAlive out status send).2 ↔
      status ≠ none := by
  cases status with
  | none => exact iff_of_false (not_agrees_of_sent hout) fun hn => hn rfl
  | some s => exact iff_of_true (h s) (by simp)

end Sending

section Handlers
variable {cfg : Config} {env : RequestEnv} {w : World} {out : Outbound}

/-- A handler whose peer waits for the reply sends nothing and does not return 0. -/
theorem handler_unheard {cmd : Byte} {f : ℤ → Inbound → Outbound → World → Handled}
    (hf : handler cfg env cmd = some f) {n : ℤ} {inb : Inbound}
    (h : ¬ (receiveBody env cmd n inb).1.Heard) (out : Outbound) (w : World) :
    (f n inb out w).outbound.sent = out.sent ∧ (f n inb out w).result ≠ 0 := by
  have hepipe : errnoOr env.sendErrno EPIPE ≠ 0 := errnoOr_ne_zero (by decide)
  have hout : (out.awaiting (receiveBody env cmd n inb).1).sent = out.sent :=
    Outbound.awaiting_sent _ _
  have hcopy (status : Errno) :
      let t := tcpsenddata (out.awaiting (receiveBody env cmd n inb).1)
        (some (replyHeader env 0 status))
      t.2.sent = out.sent ∧ (if t.1 ≠ 1 then errnoOr env.sendErrno EPIPE
        else if status = EEXIST then 0 else status) ≠ 0 := by
    obtain ⟨hres, hsent⟩ := tcpsenddata_unheard h out (replyHeader_ne_nil env 0 status)
    exact ⟨hsent, by rwa [if_pos hres]⟩
  cases handles_of_handler hf with
  | downloadFile => exact sendFileReply_unheard h env out _ _
  | getMetadata => exact sendFileReply_unheard h env out _ _
  | uploadFile =>
    have hne (status : Errno) (name : Bytes) : (if status = 0 then
        replyHeader env name.length status ++ name else replyHeader env 0 status) ≠ [] := by
      split_ifs
      · exact List.append_ne_nil_of_left_ne_nil (replyHeader_ne_nil _ _ _) _
      · exact replyHeader_ne_nil _ _ _
    have hbody : ¬ (recvAllocated env 0 sizeofPointer n inb).1.Heard := h
    refine replyWhenAlive_unheard (Outbound.awaiting_sent _ _) (fun s => ?_) _
    obtain ⟨hres, hsent⟩ := tcpsenddata_unheard hbody out (hne s _)
    refine ⟨hsent, ?_⟩
    dsimp only
    rwa [if_pos hres]
  | deleteFile => exact replyWhenAlive_unheard hout (sendHeaderReply_unheard h env out) _
  | syncCreateFile => exact replyWhenAlive_unheard hout hcopy _
  | syncDeleteFile => exact replyWhenAlive_unheard hout (sendHeaderReply_unheard h env out) _
  | syncUpdateFile => exact replyWhenAlive_unheard hout hcopy _
  | setMetadata => exact replyWhenAlive_unheard hout (sendHeaderReply_unheard h env out) _

theorem recvGroupRequest_ne_zero {inb : Inbound} {n : ℤ} {e : Errno}
    (h : (recvGroupRequest env n inb).2 = .error e) : e ≠ 0 := by
  unfold recvGroupRequest at h
  split_ifs at h
  · cases h
    decide
  · cases h
    decide
  · exact receive_error_ne_zero h

/-- A refused request has a status other than 0. -/
theorem groupRequest_ne_zero {inb : Inbound} {n : ℤ} {mismatch e : Errno} (hm : mismatch ≠ 0)
    (h : (recvGroupRequest env n inb).2.bind (groupFilename cfg mismatch) = .error e) : e ≠ 0 := by
  cases hr : (recvGroupRequest env n inb).2 with
  | error r =>
    rw [hr] at h
    cases h
    exact recvGroupRequest_ne_zero hr
  | ok body =>
    rw [hr] at h
    simp only [Except.bind, groupFilename] at h
    split_ifs at h
    cases h
    exact hm

/-- The status of a wrong group name does not matter to a right one. -/
theorem groupFilename_ok {mismatch : Errno} {data filename : Bytes}
    (h : groupFilename cfg mismatch data = .ok filename) (mismatch' : Errno) :
    groupFilename cfg mismatch' data = .ok filename := by
  unfold groupFilename at h ⊢
  split at h
  · cases h
  · rename_i hg
    rw [if_neg hg]
    exact h

/-- A file that was read is a buffer of `int` size; a failure has a status and no buffer. -/
theorem getFileContent_cases (f : ReadFaults) (w : World) (p : Bytes) :
    (getFileContent f w p).2.1 = 0 ∧ (∃ b, (getFileContent f w p).2.2 = some b ∧
        (b.length : ℤ) ≤ INT_MAX) ∨
      (getFileContent f w p).2.1 ≠ 0 ∧ (getFileContent f w p).2.2 = none := by
  have hne (e d : Errno) (hd : d ≠ 0) : errnoOr e d ≠ 0 := errnoOr_ne_zero hd
  unfold getFileContent
  dsimp only
  split
  · exact .inr ⟨hne _ _ (by decide), rfl⟩
  · split
    · exact .inr ⟨hne _ _ (by decide), rfl⟩
    · rename_i fileSize content hopened
      split
      · exact .inr ⟨hne _ _ (by decide), rfl⟩
      · by_cases hsize : f.ftell = true ∨ fileSize < 0
        · rw [if_pos hsize]
          exact .inr ⟨hne _ _ (by decide), rfl⟩
        · rw [if_neg hsize]
          split
          · exact .inr ⟨hne _ _ (by decide), rfl⟩
          · split
            · exact .inr ⟨hne _ _ (by decide), rfl⟩
            · cases content with
              | some b =>
                have hlt := wrap32_lt b.length
                have heq := openedFile_some hopened
                refine .inl ⟨rfl, _, rfl, ?_⟩
                rw [List.length_take]
                simp only [INT_MAX]
                omega
              | none =>
                dsimp only
                split_ifs
                · exact .inl ⟨rfl, [], rfl, by decide⟩
                · exact .inr ⟨show EISDIR ≠ 0 by decide, rfl⟩

/-- An error number that is reported as `ENOENT`. -/
def AsAbsent (e : Errno) : Prop := e = 0 ∨ e = ENOENT

/-- Reading the file ends with a status `ENOENT`: it is not there, or a call fails and leaves
no error number or this one; so does the end of a directory that is no `int`. -/
def ReadsAbsent (f : ReadFaults) (w : World) (p : Bytes) : Prop :=
  match f.fopen with
  | some e => AsAbsent e
  | none => match openedFile f w p with
    | .error e => AsAbsent e
    | .ok (fileSize, _) => match f.fseek with
      | some e => AsAbsent e
      | none =>
        if f.ftell ∨ fileSize < 0 then AsAbsent f.errno
        else match f.malloc with
          | some e => e = ENOENT
          | none => match f.fread with
            | some e => AsAbsent e
            | none => False

theorem errnoOr_enoent {e : Errno} : errnoOr e ENOENT = ENOENT ↔ AsAbsent e := by
  unfold errnoOr AsAbsent
  by_cases h : e = 0
  · simp [h]
  · simp [h]

theorem getFileContent_enoent {f : ReadFaults} {w : World} {p : Bytes} :
    (getFileContent f w p).2.1 = ENOENT ↔ ReadsAbsent f w p := by
  have hmalloc (e : Errno) : errnoOr e ENOMEM = ENOENT ↔ e = ENOENT := by
    unfold errnoOr
    by_cases h : e = 0
    · rw [h]
      decide
    · simp [h]
  have hno (e : Errno) (h : e ≠ ENOENT) : e = ENOENT ↔ False := iff_of_false h id
  cases hopen : f.fopen with
  | some e => simpa only [getFileContent, ReadsAbsent, hopen] using errnoOr_enoent
  | none =>
    cases hread : openedFile f w p with
    | error e => simpa only [getFileContent, ReadsAbsent, hopen, hread] using errnoOr_enoent
    | ok x =>
      obtain ⟨fileSize, content⟩ := x
      cases hseek : f.fseek with
      | some e => simpa only [getFileContent, ReadsAbsent, hopen, hread, hseek] using errnoOr_enoent
      | none =>
        by_cases hsize : f.ftell = true ∨ fileSize < 0
        · simpa only [getFileContent, ReadsAbsent, hopen, hread, hseek, hsize, if_true]
            using errnoOr_enoent
        · simp only [getFileContent, ReadsAbsent, hopen, hread, hseek, hsize, if_false]
          cases hm : f.malloc with
          | some e => exact hmalloc e
          | none =>
            cases hr : f.fread with
            | some e => exact errnoOr_enoent
            | none =>
              cases content with
              | some b => exact hno 0 (by decide)
              | none =>
                dsimp only
                split_ifs
                · exact hno 0 (by decide)
                · exact hno EISDIR (by decide)

theorem storageDownloadFile_agrees {n : ℤ} {inb : Inbound} (h : Accepting out)
    (hheard : (recvGroupRequest env n inb).1.Heard) :
    Agrees False out.sent (storageDownloadFile cfg env n inb out w).outbound
      (storageDownloadFile cfg env n inb out w).result := by
  have hm : errnoOr env.errno EINVAL ≠ 0 := errnoOr_ne_zero (by decide)
  simp only [storageDownloadFile, withBody, Outbound.awaiting_heard hheard]
  cases hreq : (recvGroupRequest env n inb).2.bind (groupFilename cfg (errnoOr env.errno EINVAL)) with
  | error e =>
    have he := groupRequest_ne_zero hm hreq
    exact (sendFileReply_agrees_iff env h (fun _ => rfl) (by decide)).mpr fun h0 => absurd h0 he
  | ok filename =>
    simp only [downloadFile]
    rcases getFileContent_cases env.read w (dataPath cfg filename) with
      ⟨h0, b, hb, hlen⟩ | ⟨h0, hb⟩
    · refine (sendFileReply_agrees_iff env h (fun hn => absurd h0 hn) ?_).mpr fun _ => ?_
      · rwa [hb]
      · simp [hb]
    · refine (sendFileReply_agrees_iff env h (fun _ => hb) ?_).mpr fun hz => absurd hz h0
      rw [hb]
      decide

/-- A metadata request for a file whose metadata file cannot be found. -/
def NoMetadata (cfg : Config) (env : RequestEnv) (n : ℤ) (inb : Inbound) (w : World) : Prop :=
  ∃ filename, (recvGroupRequest env n inb).2.bind (groupFilename cfg EINVAL) = .ok filename ∧
    w.tree.access w.cwd (dataPath cfg filename) = true ∧
    ReadsAbsent env.read w (dataPath cfg filename ++ STORAGE_META_FILE_EXT)

/-- What the action of a metadata request leaves: a status 0 without a buffer is the absence
of the metadata file. -/
theorem getMetadata_cases (filename : Bytes) :
    let r := getMetadata cfg env w filename
    (r.2.1 ≠ 0 → r.2.2 = none) ∧ ((r.2.2.getD []).length : ℤ) ≤ INT_MAX ∧
      ((r.2.1 = 0 → r.2.2 ≠ none) ↔ ¬ (w.tree.access w.cwd (dataPath cfg filename) = true ∧
        ReadsAbsent env.read w (dataPath cfg filename ++ STORAGE_META_FILE_EXT))) := by
  by_cases hx : w.tree.access w.cwd (dataPath cfg filename) = true
  · set v := w.touch (dataPath cfg filename) with hv
    have habsent : (getFileContent env.read v (dataPath cfg filename ++ STORAGE_META_FILE_EXT)).2.1 =
        ENOENT ↔ ReadsAbsent env.read w (dataPath cfg filename ++ STORAGE_META_FILE_EXT) :=
      getFileContent_enoent
    simp only [getMetadata, fileExists, hx, Bool.not_true, Bool.false_eq_true, if_false, ← hv,
      true_and, ← habsent]
    rcases getFileContent_cases env.read v (dataPath cfg filename ++ STORAGE_META_FILE_EXT) with
      ⟨h0, b, hb, hlen⟩ | ⟨h0, hb⟩
    · have hne : (0 : Errno) ≠ ENOENT := by decide
      rw [h0, if_neg hne, hb]
      exact ⟨fun h => absurd rfl h, hlen, iff_of_true (fun _ => by simp) hne⟩
    · rw [hb]
      refine ⟨fun _ => rfl, by decide, ?_⟩
      split_ifs with he
      · simp [he]
      · simp [he, h0]
  · have hne : ENOENT ≠ (0 : Errno) := by decide
    have hmissing : getMetadata cfg env w filename =
        (w.touch (dataPath cfg filename), ENOENT, none) := by simp [getMetadata, fileExists, hx]
    rw [hmissing]
    have hlen : (([] : Bytes).length : ℤ) ≤ INT_MAX := by decide
    exact ⟨fun _ => rfl, hlen, iff_of_true (fun h => absurd h hne) fun h => hx h.1⟩

theorem storageGetMetadata_agrees_iff {n : ℤ} {inb : Inbound} (h : Accepting out)
    (hheard : (recvGroupRequest env n inb).1.Heard) :
    Agrees False out.sent (storageGetMetadata cfg env n inb out w).outbound
      (storageGetMetadata cfg env n inb out w).result ↔ ¬ NoMetadata cfg env n inb w := by
  simp only [storageGetMetadata, withBody, Outbound.awaiting_heard hheard, NoMetadata]
  cases hreq : (recvGroupRequest env n inb).2.bind (groupFilename cfg EINVAL) with
  | error e =>
    have he := groupRequest_ne_zero (by decide) hreq
    refine iff_of_true ?_ (by simp)
    exact (sendFileReply_agrees_iff env h (fun _ => rfl) (by decide)).mpr fun h0 => absurd h0 he
  | ok filename =>
    obtain ⟨hnone, hlen, hiff⟩ := @getMetadata_cases cfg env w filename
    simp only [Except.ok.injEq, exists_eq_left', ← hiff]
    exact sendFileReply_agrees_iff env h hnone hlen

/-- A copy request is answered with a header, and keeps the connection on `EEXIST`. -/
theorem storageSyncCopyFile_agrees_iff {protoCmd : Byte} (hc : isSyncCopy protoCmd) {n : ℤ}
    {inb : Inbound} (h : Accepting out) (hheard : (recvAllocated env 34 n n inb).1.Heard) :
    Agrees True out.sent (storageSyncCopyFile cfg env protoCmd n inb out w).outbound
      (storageSyncCopyFile cfg env protoCmd n inb out w).result ↔
        ¬ KillsProcess cfg env protoCmd n inb w := by
  simp only [storageSyncCopyFile, withBody, Outbound.awaiting_heard hheard, ← syncCopy_dies_iff hc]
  refine replyWhenAlive_agrees_iff rfl (fun status => ?_) _
  obtain ⟨out', hsend, hsent, -⟩ := tcpsenddata_accepting h (replyHeader env 0 status)
  rw [hsend]
  apply agrees_of_sent status []
  · simpa using hsent
  · decide
  · intro
    rfl
  · by_cases he : status = EEXIST
    · simp [he]
    · simp [he]

theorem length_encodeLoop_le (st : Base64State) (linePos : ℤ) (raw : Bytes) :
    (encodeLoop st linePos raw).1.length ≤ raw.length * (4 + st.lineSeparator.length) := by
  induction linePos, raw using encodeLoop.induct st with
  | case1 linePos a b c raw full ih =>
    have hquad : (encodeQuad st a b c).length = 4 := rfl
    have hsep : (if full ∧ st.lineLength ≠ 0 then st.lineSeparator else []).length ≤
        st.lineSeparator.length := by split_ifs <;> simp
    simp only [encodeLoop, List.length_append, List.length_cons, hquad]
    nlinarith
  | case2 linePos raw h =>
    rw [encodeLoop]
    · exact Nat.zero_le _
    · exact h

/-- `line_separator` is an array of sixteen bytes, so a name is short whatever the alphabet. -/
theorem length_storageGenFilename_le {st : Base64State} (hsep : st.lineSeparator.length ≤ 16)
    (currentTime r fileSize : ℤ) : (storageGenFilename st currentTime r fileSize).length ≤ 246 := by
  set src := int2buff currentTime ++ int2buff fileSize ++ int2buff r with hsrc
  have hlen : src.length = 12 := by simp [hsrc]
  have hne : src ≠ [] := by
    intro h
    rw [h] at hlen
    cases hlen
  have hencoded : (base64EncodeEx st src false).length ≤ 240 := by
    have hloop := length_encodeLoop_le st 0 src
    have htake : src.take (src.length / 3 * 3) = src := List.take_of_length_le (by omega)
    have hdrop : src.drop (src.length / 3 * 3) = [] := List.drop_of_length_le (by omega)
    simp only [base64EncodeEx, hne, if_false, htake, hdrop]
    rw [hlen] at hloop
    omega
  have hpair (k : ℕ) : (hexPair k).length = 2 := rfl
  simp only [storageGenFilename, ← hsrc, List.length_append, List.length_cons, hpair]
  omega

theorem length_uploadFile_le (hsep : cfg.base64.lineSeparator.length ≤ 16) (u : UploadRequest) :
    (uploadFile cfg env w u).2.2.length ≤ 246 := by
  have hsave : (storageSaveFile cfg env w u).2.2.length ≤ 246 := by
    unfold storageSaveFile
    split
    · exact Nat.zero_le _
    · rename_i v filename hgen
      obtain ⟨j, rfl⟩ := genUnusedFilename_eq (congrArg Prod.snd hgen)
      dsimp only
      split_ifs
      · exact length_storageGenFilename_le hsep _ _ _
      · exact Nat.zero_le _
  unfold uploadFile
  dsimp only
  split_ifs <;> exact hsave

theorem storageUploadFile_agrees_iff (hsep : cfg.base64.lineSeparator.length ≤ 16) {n : ℤ}
    {inb : Inbound} (h : Accepting out)
    (hheard : (recvAllocated env 0 sizeofPointer n inb).1.Heard) :
    Agrees False out.sent (storageUploadFile cfg env n inb out w).outbound
      (storageUploadFile cfg env n inb out w).result ↔
        ¬ KillsProcess cfg env STORAGE_PROTO_CMD_UPLOAD_FILE n inb w := by
  have hsend (status : Errno) (filename : Bytes) (hlen : filename.length ≤ 246) :
      let s := tcpsenddata out (some (if status = 0 then
        replyHeader env filename.length status ++ filename else replyHeader env 0 status))
      Agrees False out.sent s.2 (if s.1 ≠ 1 then errnoOr env.sendErrno EPIPE else status) := by
    by_cases h0 : status = 0
    · obtain ⟨out', hsend, hsent, -⟩ := tcpsenddata_accepting h
        (replyHeader env filename.length status ++ filename)
      rw [if_pos h0, hsend]
      apply agrees_of_sent status filename hsent
      · simp only [INT_MAX]
        omega
      · intro hn
        exact absurd h0 hn
      · simp
    · obtain ⟨out', hsend, hsent, -⟩ := tcpsenddata_accepting h (replyHeader env 0 status)
      rw [if_neg h0, hsend]
      apply agrees_of_sent status []
      · simpa using hsent
      · decide
      · intro
        rfl
      · simp
  simp only [storageUploadFile, withBody, Outbound.awaiting_heard hheard, ← upload_dies_iff]
  refine replyWhenAlive_agrees_iff rfl (fun status => hsend status _ ?_) _
  split
  · exact Nat.zero_le _
  · exact length_uploadFile_le hsep _

/-- The requests that are answered with a header whatever their status. -/
theorem headerReply_agrees_iff {cmd : Byte} {n : ℤ} {inb : Inbound} {status : Option Errno}
    (hdies : status = none ↔ KillsProcess cfg env cmd n inb w) (h : Accepting out) :
    Agrees False out.sent (replyWhenAlive out status (sendHeaderReply env out)).1
      (replyWhenAlive out status (sendHeaderReply env out)).2 ↔
        ¬ KillsProcess cfg env cmd n inb w := by
  rw [← hdies]
  exact replyWhenAlive_agrees_iff rfl (sendHeaderReply_agrees env h) status

/-- A handler's reply agrees with its result exactly when the client is heard from again, the
metadata asked for are not missing, and it is not the process that ends. -/
theorem agrees_iff {cmd : Byte} {f : ℤ → Inbound → Outbound → World → Handled}
    (hf : handler cfg env cmd = some f) (hsep : cfg.base64.lineSeparator.length ≤ 16)
    (h : Accepting out) (n : ℤ) (inb : Inbound) :
    Agrees (isSyncCopy cmd) out.sent (f n inb out w).outbound (f n inb out w).result ↔
      (receiveBody env cmd n inb).1.Heard ∧
        ¬ (cmd = STORAGE_PROTO_CMD_GET_METADATA ∧ NoMetadata cfg env n inb w) ∧
        ¬ KillsProcess cfg env cmd n inb w := by
  by_cases hheard : (receiveBody env cmd n inb).1.Heard
  · have hother (hget : cmd ≠ STORAGE_PROTO_CMD_GET_METADATA) :
        ¬ KillsProcess cfg env cmd n inb w ↔ (receiveBody env cmd n inb).1.Heard ∧
          ¬ (cmd = STORAGE_PROTO_CMD_GET_METADATA ∧ NoMetadata cfg env n inb w) ∧
          ¬ KillsProcess cfg env cmd n inb w :=
      ⟨fun hk => ⟨hheard, fun hn => hget hn.1, hk⟩, fun hn => hn.2.2⟩
    have halive (hset : cmd ≠ STORAGE_PROTO_CMD_SET_METADATA) (hstore : ¬ isStoreCmd cmd) :
        ¬ KillsProcess cfg env cmd n inb w := by
      rw [KillsProcess, if_neg hset]
      exact fun hk => hstore hk.1
    have hno (hc : ¬ isSyncCopy cmd) : isSyncCopy cmd = False := eq_false hc
    have hyes (hc : isSyncCopy cmd) : isSyncCopy cmd = True := eq_true hc
    cases handles_of_handler hf with
    | downloadFile =>
      rw [hno (by decide)]
      exact iff_of_true (storageDownloadFile_agrees h hheard)
        ((hother (by decide)).mp (halive (by decide) (by decide)))
    | getMetadata =>
      rw [hno (by decide), storageGetMetadata_agrees_iff h hheard]
      simp only [hheard, halive (by decide) (by decide), true_and, not_false_eq_true, and_true]
    | uploadFile =>
      rw [hno (by decide)]
      exact (storageUploadFile_agrees_iff hsep h hheard).trans (hother (by decide))
    | deleteFile =>
      have hbody : (recvGroupRequest env n inb).1.Heard := hheard
      simp only [hno (by decide), storageDeleteFile, withBody, Outbound.awaiting_heard hbody]
      exact (headerReply_agrees_iff delete_dies_iff h).trans (hother (by decide))
    | syncCreateFile =>
      rw [hyes (.inl rfl)]
      exact (storageSyncCopyFile_agrees_iff (.inl rfl) h hheard).trans (hother (by decide))
    | syncDeleteFile =>
      have hbody : (recvGroupRequest env n inb).1.Heard := hheard
      simp only [hno (by decide), storageSyncDeleteFile, withBody, Outbound.awaiting_heard hbody]
      exact (headerReply_agrees_iff syncDelete_dies_iff h).trans (hother (by decide))
    | syncUpdateFile =>
      rw [hyes (.inr rfl)]
      exact (storageSyncCopyFile_agrees_iff (.inr rfl) h hheard).trans (hother (by decide))
    | setMetadata =>
      have hbody : (recvAllocated env 35 n n inb).1.Heard := hheard
      simp only [hno (by decide), storageSetMetadata, withBody, Outbound.awaiting_heard hbody]
      exact (headerReply_agrees_iff setMetadata_dies_iff h).trans (hother (by decide))
  · obtain ⟨hsent, -⟩ := handler_unheard hf hheard out w
    exact iff_of_false (not_agrees_of_sent hsent) fun hn => hheard hn.1

end Handlers

section Example

def plainLoc : Loc := [ascii "b", ascii "data", ascii "00", ascii "00", ascii "a"]

/-- A store with one file and no metadata for it. -/
def plainWorld : World :=
  { sampleWorld with tree := sampleWorld.tree.setFile plainLoc (ascii "x") }

def plainRequest : Inbound := ⟨downloadBody sampleConfig (ascii "00/00/a"), []⟩

/-- The metadata of that file is answered with status 0, and the connection is given up. -/
theorem plainWorld_not_agrees :
    let r := storageGetMetadata sampleConfig {} 23 plainRequest ⟨[], []⟩ plainWorld
    r.outbound.sent = replyHeader {} 0 0 ∧ r.result = EPIPE ∧
      ¬ Agrees False [] r.outbound r.result := by
  refine ⟨by decide +kernel, by decide +kernel, ?_⟩
  have hacc : Accepting ⟨[], []⟩ := by
    intro e he
    cases he
  have hno : NoMetadata sampleConfig {} 23 plainRequest plainWorld :=
    ⟨ascii "00/00/a", by decide +kernel, by decide +kernel, .inr (by decide +kernel)⟩
  have hheard : (recvGroupRequest {} 23 plainRequest).1.Heard :=
    receiveBody_ideal_heard {} STORAGE_PROTO_CMD_GET_METADATA 23 _
  exact fun h => (storageGetMetadata_agrees_iff hacc hheard).mp h hno

/-- A download of it agrees. -/
theorem plainWorld_agrees :
    let r := storageDownloadFile sampleConfig {} 23 plainRequest ⟨[], []⟩ plainWorld
    Agrees (isSyncCopy STORAGE_PROTO_CMD_DOWNLOAD_FILE) [] r.outbound r.result := by
  have hacc : Accepting ⟨[], []⟩ := by
    intro e he
    cases he
  have hf : handler sampleConfig {} STORAGE_PROTO_CMD_DOWNLOAD_FILE =
      some (storageDownloadFile sampleConfig {}) := rfl
  exact (agrees_iff hf (by decide) hacc 23 plainRequest).mpr
    ⟨receiveBody_ideal_heard {} STORAGE_PROTO_CMD_DOWNLOAD_FILE 23 _,
      fun h => absurd h.1 (by decide), fun h => absurd h.1 (by decide)⟩

end Example

end DemoStorage.ReplyAgreement
