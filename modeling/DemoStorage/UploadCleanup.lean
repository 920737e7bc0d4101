import DemoStorage.ReplyAgreement

/-!
# What a failed upload leaves behind

An upload writes the data file, then the metadata file, then one or two records. Only a
failure of the metadata unlinks the data file again, and nothing ever unlinks the metadata
file. So a file stays behind when a write of the data ends early, when that unlink fails, when
a write of the metadata ends early, and when a record is not logged. A flush that fails at
`fclose` is no failure of the upload, and a write of a record that ends the process leaves nobody
to report one.
-/

namespace DemoStorage.UploadCleanup
open ByteStrings LexicalPaths PosixFileTree SocketTransfers MetadataRecords GeneratedNames
open DaemonState BinlogWriting BinlogOutcomes FileEffects RequestHandlers UploadExits
open LogWrites StoreRequests UploadRoundTrip ServiceThread ReplyAgreement

/-- The status byte of the reply. -/
def replyStatus (cfg : Config) (env : RequestEnv) (n : ℤ) (inb : Inbound) (w : World) :
    Option Errno :=
  (storageUploadFile cfg env n inb ⟨[], []⟩ w).outbound.sent[10]?

/-- Behind a reply with an error status every file but those of the log is as before. -/
def Cleaned (cfg : Config) (env : RequestEnv) (n : ℤ) (inb : Inbound) (out : Outbound)
    (w : World) : Prop :=
  ∀ status, replyStatus cfg env n inb w = some status → status ≠ 0 →
    ∀ l, ¬ LogPlace cfg w l → (storageUploadFile cfg env n inb out w).world.tree.node l =
      w.tree.node l

section Remains
variable (cfg : Config) (env : RequestEnv) (w : World) (u : UploadRequest)

/-- Both records, or the one without metadata, are logged. -/
def AllLogged (filename : Bytes) : Prop :=
  let record := logRecord env.log STORAGE_OP_TYPE_SOURCE_CREATE_FILE filename
  Logs env.log w record ∧ (u.metaBytes ≠ 0 → Logs env.metaLog (counted w record)
    (logRecord env.metaLog STORAGE_OP_TYPE_SOURCE_CREATE_FILE
      (cstr filename ++ STORAGE_META_FILE_EXT)))

/-- A record is not logged, and the process is there to say so. -/
def Unlogged (filename : Bytes) : Prop :=
  ¬ AllLogged env w u filename ∧ ¬ DiesLogging cfg env w u filename

/-- The data file stays: written in part, not unlinked behind failing metadata, or not logged. -/
def DataRemains (filename : Bytes) : Prop :=
  Reported env.write u.content ∨
    u.metaBytes ≠ 0 ∧ (∀ k, ¬ MetaStored cfg env w u filename k) ∧ env.unlinkData.isSome ∨
    (u.metaBytes = 0 ∨ ∃ k, MetaStored cfg env w u filename k) ∧ Unlogged cfg env w u filename

/-- The metadata file stays, with bytes that were not there before: written in part or not
logged. -/
def MetaRemains (filename : Bytes) (k : Loc) : Prop :=
  ¬ Reported env.write u.content ∧ u.metaBytes ≠ 0 ∧ env.metaMalloc = false ∧
    Opens env.metaWrite w (metaFile cfg filename) k ∧
    w.tree.content k ≠ some (reached env.metaWrite (sortedMeta cfg u)) ∧
    (Reported env.metaWrite (sortedMeta cfg u) ∨ Unlogged cfg env w u filename)

/-- A file of the upload stays behind at a place. -/
def Remains (j : Loc) : Prop :=
  ∃ filename l, chosen cfg env w u = some filename ∧ Opens env.write w (dataFile cfg filename) l ∧
    (j = l ∧ DataRemains cfg env w u filename ∨ MetaRemains cfg env w u filename j)

end Remains

section Exits
variable {cfg : Config} {env : RequestEnv} {w : World} {u : UploadRequest}

/-- A success and a death leave nothing that would have to go, and a failure exactly what
remains. -/
def Accounts (cfg : Config) (env : RequestEnv) (w : World) (u : UploadRequest)
    (r : World × Option Errno) : Prop :=
  (r.2 = none ∨ r.2 = some 0 → ∀ j, ¬ Remains cfg env w u j) ∧
    ∀ status, r.2 = some status → status ≠ 0 → ∀ j, ¬ LogPlace cfg w j →
      (r.1.tree.node j ≠ w.tree.node j ↔ Remains cfg env w u j)

theorem remains_iff {filename : Bytes} {l : Loc} (hc : chosen cfg env w u = some filename)
    (ho : Opens env.write w (dataFile cfg filename) l) (j : Loc) : Remains cfg env w u j ↔
      j = l ∧ DataRemains cfg env w u filename ∨ MetaRemains cfg env w u filename j := by
  constructor
  · rintro ⟨filename', l', hc', ho', h⟩
    rw [hc] at hc'
    cases hc'
    rwa [ho'.unique ho] at *
  · exact fun h => ⟨filename, l, hc, ho, h⟩

/-- Writing the records behind files that were saved. -/
theorem uploadFile_logged {d : World} {filename : Bytes} (h : SameLog w d)
    (hsave : storageSaveFile cfg env w u = (d, 0, filename)) :
    ((uploadFile cfg env w u).2.1 = some 0 ↔ AllLogged env w u filename) ∧
      Apart (LogPlace cfg w) d (uploadFile cfg env w u).1 := by
  have hlogs : Logs env.log d (logRecord env.log STORAGE_OP_TYPE_SOURCE_CREATE_FILE filename) ↔
      Logs env.log w (logRecord env.log STORAGE_OP_TYPE_SOURCE_CREATE_FILE filename) :=
    Logs.congr h.stream h.size
  have hplace : LogPlace cfg d = LogPlace cfg w := funext fun l => propext (h.logPlace cfg l)
  have hfirst := storageBinlogWrite_apart cfg env.log d STORAGE_OP_TYPE_SOURCE_CREATE_FILE filename
  rw [hplace] at hfirst
  simp only [uploadFile, hsave, ne_eq, not_true_eq_false, if_false]
  by_cases h1 : Logs env.log w (logRecord env.log STORAGE_OP_TYPE_SOURCE_CREATE_FILE filename)
  · obtain ⟨hq, ⟨l, hl⟩, hlen, hsize⟩ := hlogs.mpr h1
    have he := @storageBinlogWrite_quiet cfg env.log hq d l hl STORAGE_OP_TYPE_SOURCE_CREATE_FILE
      filename hlen hsize
    rw [he] at hfirst ⊢
    simp only [not_true_eq_false, if_false]
    by_cases hm : u.metaBytes = 0
    · simp only [hm, if_true]
      exact ⟨iff_of_true trivial ⟨h1, fun hne => absurd hm hne⟩, hfirst⟩
    · simp only [hm, if_false]
      generalize hv : ({ flushed d l _ with written := _ } : World) = v at hfirst ⊢
      have hsame : v.fpBinlog = (counted w (logRecord env.log
            STORAGE_OP_TYPE_SOURCE_CREATE_FILE filename)).fpBinlog ∧
          v.binlogFileSize = (counted w (logRecord env.log
            STORAGE_OP_TYPE_SOURCE_CREATE_FILE filename)).binlogFileSize := by
        rw [← hv]
        exact ⟨h.stream, by simp [flushed, counted, nextSize, h.size]⟩
      have hplace' : LogPlace cfg v = LogPlace cfg w := by
        have hs : v.fpBinlog = w.fpBinlog := hsame.1
        have hi : v.binlogIndex = w.binlogIndex := by
          rw [← hv]
          exact h.index
        funext k
        rw [← hplace, LogPlace, LogPlace, hfirst.locate, hfirst.locate, hs, hi, h.stream, h.index]
      have hsecond := storageBinlogWrite_apart cfg env.metaLog v STORAGE_OP_TYPE_SOURCE_CREATE_FILE
        (cstr filename ++ STORAGE_META_FILE_EXT)
      rw [hplace'] at hsecond
      refine ⟨?_, hfirst.trans hsecond⟩
      rw [storageBinlogWrite_eq_zero, Logs.congr hsame.1 hsame.2]
      exact ⟨fun h2 => ⟨h1, fun _ => h2⟩, fun h2 => h2.2 hm⟩
  · have hr : (storageBinlogWrite cfg env.log d STORAGE_OP_TYPE_SOURCE_CREATE_FILE filename).2 ≠
        some 0 := storageBinlogWrite_eq_zero.not.mpr (hlogs.not.mpr h1)
    rw [if_pos hr]
    exact ⟨iff_of_false hr fun hall => h1 hall.1, hfirst⟩

section Accounting
variable {filename : Bytes} {l k : Loc}

theorem accounts_failed {d : World} {r : Errno} {name : Bytes}
    (hsave : storageSaveFile cfg env w u = (d, r, name)) (hr : r ≠ 0)
    (h : ∀ j, d.tree.node j ≠ w.tree.node j ↔ Remains cfg env w u j) :
    Accounts cfg env w u ((uploadFile cfg env w u).1, (uploadFile cfg env w u).2.1) := by
  simp only [uploadFile, hsave, hr, ne_eq, not_false_eq_true, if_true]
  exact ⟨fun h0 => by simp [hr] at h0, fun _ _ _ j _ => h j⟩

theorem accounts_logged {d : World} (h : SameLog w d)
    (hsave : storageSaveFile cfg env w u = (d, 0, filename))
    (hd : ∀ j, Remains cfg env w u j ↔
      d.tree.node j ≠ w.tree.node j ∧ Unlogged cfg env w u filename) :
    Accounts cfg env w u ((uploadFile cfg env w u).1, (uploadFile cfg env w u).2.1) := by
  obtain ⟨hall, hap⟩ := uploadFile_logged h hsave
  have hdies : (uploadFile cfg env w u).2.1 = none ↔ DiesLogging cfg env w u filename := by
    rw [uploadFile_eq_none, UploadDies]
    simp only [← storageSaveFile_eq_zero, hsave, Prod.mk.injEq, true_and, exists_eq_left']
  refine ⟨fun h0 j hj => ?_, fun status hstatus hne j hj => ?_⟩
  · obtain ⟨-, hno, halive⟩ := (hd j).mp hj
    exact h0.elim (fun h0 => halive (hdies.mp h0)) fun h0 => hno (hall.mp h0)
  · have hlost : Unlogged cfg env w u filename := by
      refine ⟨fun h => hne ?_, fun h => ?_⟩
      · exact Option.some.inj (hstatus.symm.trans (hall.mpr h))
      · exact Option.some_ne_none status (hstatus.symm.trans (hdies.mpr h))
    rw [hap.node j hj, hd]
    exact ⟨fun hn => ⟨hn, hlost⟩, And.left⟩

/-- Which of two places that may have been written differ from before. -/
private theorem node_two_ne_iff {t : FileTree} {x y : Bytes} (hn : t.node l = none) (hk : k ≠ l)
    (D : Prop) [Decidable D] (j : Loc) :
    (if j = k then some (.file y) else if j = l ∧ D then some (.file x) else t.node j) ≠
      t.node j ↔ j = l ∧ D ∨ j = k ∧ t.content k ≠ some y := by
  by_cases hjk : j = k
  · subst hjk
    simp [hk, FileTree.content_eq_some, @eq_comm _ (some (Node.file y))]
  · by_cases hjl : j = l
    · subst hjl
      by_cases hD : D <;> simp [hjk, hD, hn]
    · simp [hjk, hjl]

private theorem node_one_ne_iff {t : FileTree} {x : Bytes} (hn : t.node l = none) (D : Prop)
    [Decidable D] (j : Loc) : (if j = l ∧ D then some (.file x) else t.node j) ≠ t.node j ↔
      j = l ∧ D := by
  by_cases hjl : j = l
  · subst hjl
    by_cases hD : D <;> simp [hD, hn]
  · simp [hjl]

/-- The tree behind the unlink of the data file. -/
private theorem unlink_tree (fault : Option Errno) {v : World} {full : Bytes}
    (hl : v.locate full = .ok l) (hc : (v.tree.content l).isSome) :
    (unlink fault v full).1.tree = if fault.isSome then v.tree else v.tree.removeFile l := by
  cases fault with
  | some e => rfl
  | none =>
    rw [unlink_of_removable ⟨hl, hc⟩]
    rfl

theorem accounts_torn (hc : chosen cfg env w u = some filename)
    (ho : Opens env.write w (dataFile cfg filename) l) (hs : Reported env.write u.content) :
    Accounts cfg env w u ((uploadFile cfg env w u).1, (uploadFile cfg env w u).2.1) := by
  obtain ⟨cs, hsave⟩ := storageSaveFile_of_chosen hc
  obtain ⟨r, hr, he⟩ := @saveFileAs_torn cfg env { w with calls := cs } u _ l ho hs
  refine accounts_failed (hsave _ _ he) hr fun j => ?_
  have hnode : (stored { w with calls := cs } (dataFile cfg filename) l
      (reached env.write u.content)).tree.node j = _ := FileTree.node_setFile ho.2.2 _ j
  have hj := node_one_ne_iff (x := reached env.write u.content)
    (node_none_of_chosen hc ho.2.1) True j
  simp only [and_true] at hj
  rw [hnode, remains_iff hc ho, hj]
  exact ⟨fun h => .inl ⟨h, .inl hs⟩, fun h => h.elim And.left fun h => absurd hs h.1⟩

theorem accounts_plain (hc : chosen cfg env w u = some filename)
    (ho : Opens env.write w (dataFile cfg filename) l) (hs : ¬ Reported env.write u.content)
    (hm : u.metaBytes = 0) :
    Accounts cfg env w u ((uploadFile cfg env w u).1, (uploadFile cfg env w u).2.1) := by
  obtain ⟨cs, hsave⟩ := storageSaveFile_of_chosen hc
  have he := @saveFileAs_plain cfg env { w with calls := cs } u _ l ho hs hm
  refine accounts_logged ((sameLog_calls w cs).trans (sameLog_stored _ _ _ _)) (hsave _ _ he)
    fun j => ?_
  have hnode : (stored { w with calls := cs } (dataFile cfg filename) l
      (reached env.write u.content)).tree.node j = _ := FileTree.node_setFile ho.2.2 _ j
  have hj := node_one_ne_iff (x := reached env.write u.content)
    (node_none_of_chosen hc ho.2.1) True j
  simp only [and_true] at hj
  rw [hnode, remains_iff hc ho, hj]
  constructor
  · rintro (⟨hjl, hD⟩ | hM)
    · exact ⟨hjl, hD.resolve_left hs |>.resolve_left (fun h => h.1 hm) |>.2⟩
    · exact absurd hm hM.2.1
  · exact fun h => .inl ⟨h.1, .inr (.inr ⟨.inl hm, h.2⟩)⟩

theorem accounts_noMeta (hc : chosen cfg env w u = some filename)
    (ho : Opens env.write w (dataFile cfg filename) l) (hs : ¬ Reported env.write u.content)
    (hm : u.metaBytes ≠ 0)
    (h : env.metaMalloc = false → ∀ k, ¬ Opens env.metaWrite w (metaFile cfg filename) k) :
    Accounts cfg env w u ((uploadFile cfg env w u).1, (uploadFile cfg env w u).2.1) := by
  obtain ⟨cs, hsave⟩ := storageSaveFile_of_chosen hc
  obtain ⟨v, r, hr, hsame, htree, he⟩ :=
    @saveFileAs_noMeta cfg env { w with calls := cs } u _ l ho hs hm h
  have hl : v.locate (dataFile cfg filename) = .ok l := (hsame.locate _ _).mpr ho.2.1
  have hcontent : (v.tree.content l).isSome := by
    rw [htree, FileTree.content_setFile ho.2.2, if_pos rfl]
    rfl
  have hn := node_none_of_chosen hc ho.2.1
  have hnone (k : Loc) : ¬ MetaStored cfg env w u filename k := fun hk => h hk.1 k hk.2.1
  have hnode (j : Loc) : (unlink env.unlinkData v (dataFile cfg filename)).1.tree.node j =
      if j = l ∧ env.unlinkData.isSome then some (.file (reached env.write u.content))
      else w.tree.node j := by
    rw [unlink_tree env.unlinkData hl hcontent, htree]
    cases env.unlinkData with
    | some e => simpa using FileTree.node_setFile ho.2.2 (reached env.write u.content) j
    | none => simp [FileTree.removeFile_setFile ho.2.2 hn]
  refine accounts_failed (hsave _ _ he) hr fun j => ?_
  rw [hnode, node_one_ne_iff hn, remains_iff hc ho]
  constructor
  · exact fun hj => .inl ⟨hj.1, .inr (.inl ⟨hm, hnone, hj.2⟩)⟩
  · rintro (⟨hjl, hD⟩ | hM)
    · obtain hD | hD | hD := hD
      · exact absurd hD hs
      · exact ⟨hjl, hD.2.2⟩
      · obtain hD | ⟨k, hk⟩ := hD.1
        · exact absurd hD hm
        · exact absurd hk (hnone k)
    · exact absurd hM.2.2.2.1 (h hM.2.2.1 j)

/-- The tree with both files in it. -/
private theorem storedBoth_node (hl : w.tree.holds l = true) (hk : w.tree.holds k = true)
    (full : Bytes) (j : Loc) : (storedBoth cfg env w u full l k).tree.node j =
      if j = k then some (.file (reached env.metaWrite (sortedMeta cfg u)))
      else if j = l then some (.file (reached env.write u.content)) else w.tree.node j := by
  have hk' : (w.tree.setFile l (reached env.write u.content)).holds k = true := by
    rwa [FileTree.holds_setFile]
  have h1 : (storedBoth cfg env w u full l k).tree =
      (w.tree.setFile l (reached env.write u.content)).setFile k
        (reached env.metaWrite (sortedMeta cfg u)) := rfl
  rw [h1, FileTree.node_setFile hk', FileTree.node_setFile hl]

theorem sameLog_storedBoth_calls (cfg : Config) (env : RequestEnv) (w : World) (u : UploadRequest)
    (cs : List Bytes) (full : Bytes) (l k : Loc) :
    SameLog w (storedBoth cfg env { w with calls := cs } u full l k) :=
  (sameLog_calls w cs).trans (sameLog_storedBoth _ _ _ _ _ _ _)

/-- Behind a torn metadata file the data file is unlinked, or the unlink fails. -/
theorem unlink_storedBoth_node (hc : chosen cfg env w u = some filename)
    (ho : Opens env.write w (dataFile cfg filename) l)
    (hk : Opens env.metaWrite w (metaFile cfg filename) k) (cs : List Bytes) (j : Loc) :
    (unlink env.unlinkData (storedBoth cfg env { w with calls := cs } u (dataFile cfg filename) l k)
        (dataFile cfg filename)).1.tree.node j =
      if j = k then some (.file (reached env.metaWrite (sortedMeta cfg u)))
      else if j = l ∧ env.unlinkData.isSome then some (.file (reached env.write u.content))
      else w.tree.node j := by
  have hn := node_none_of_chosen hc ho.2.1
  have hkl : k ≠ l := metaFile_ne ho.2.1 hk.2.1
  have hboth := @storedBoth_node cfg env { w with calls := cs } u l k ho.2.2 hk.2.2
    (dataFile cfg filename)
  have hsame := sameLog_storedBoth_calls cfg env w u cs (dataFile cfg filename) l k
  generalize storedBoth cfg env { w with calls := cs } u (dataFile cfg filename) l k = v at *
  have hl : v.locate (dataFile cfg filename) = .ok l := (hsame.locate _ _).mpr ho.2.1
  have hcontent : v.tree.content l = some (reached env.write u.content) := by
    rw [FileTree.content_eq_some, hboth, if_neg hkl.symm, if_pos rfl]
  rw [unlink_tree env.unlinkData hl (by simp [hcontent])]
  cases env.unlinkData with
  | some e => simpa using hboth j
  | none =>
    simp only [Option.isSome_none, Bool.false_eq_true, if_false, and_false]
    rw [FileTree.node_removeFile (FileTree.holds_of_content hcontent), hboth]
    by_cases hjl : j = l
    · simp [hjl, hn, hkl.symm]
    · simp [hjl]

theorem accounts_tornMeta (hc : chosen cfg env w u = some filename)
    (ho : Opens env.write w (dataFile cfg filename) l) (hs : ¬ Reported env.write u.content)
    (hm : u.metaBytes ≠ 0) (hmalloc : env.metaMalloc = false)
    (hk : Opens env.metaWrite w (metaFile cfg filename) k)
    (hs' : Reported env.metaWrite (sortedMeta cfg u)) :
    Accounts cfg env w u ((uploadFile cfg env w u).1, (uploadFile cfg env w u).2.1) := by
  obtain ⟨cs, hsave⟩ := storageSaveFile_of_chosen hc
  obtain ⟨r, hr, he⟩ :=
    @saveFileAs_tornMeta cfg env { w with calls := cs } u _ l k ho hs hm hmalloc hk hs'
  have hn := node_none_of_chosen hc ho.2.1
  have hkl : k ≠ l := metaFile_ne ho.2.1 hk.2.1
  refine accounts_failed (hsave _ _ he) hr fun j => ?_
  rw [unlink_storedBoth_node hc ho hk, node_two_ne_iff hn hkl, remains_iff hc ho]
  have hnone (k' : Loc) : ¬ MetaStored cfg env w u filename k' := fun hk' => hk'.2.2 hs'
  constructor
  · rintro (⟨hjl, hu⟩ | ⟨hjk, hne⟩)
    · exact .inl ⟨hjl, .inr (.inl ⟨hm, hnone, hu⟩)⟩
    · exact .inr ⟨hs, hm, hmalloc, hjk ▸ hk, hjk ▸ hne, .inl hs'⟩
  · rintro (⟨hjl, hD⟩ | hM)
    · obtain hD | hD | hD := hD
      · exact absurd hD hs
      · exact .inl ⟨hjl, hD.2.2⟩
      · obtain hD | ⟨k', hk'⟩ := hD.1
        · exact absurd hD hm
        · exact absurd hk' (hnone k')
    · have hjk : j = k := hk.unique hM.2.2.2.1
      exact .inr ⟨hjk, hjk ▸ hM.2.2.2.2.1⟩

theorem accounts_full (hc : chosen cfg env w u = some filename)
    (ho : Opens env.write w (dataFile cfg filename) l) (hs : ¬ Reported env.write u.content)
    (hm : u.metaBytes ≠ 0) (hmalloc : env.metaMalloc = false)
    (hk : Opens env.metaWrite w (metaFile cfg filename) k)
    (hs' : ¬ Reported env.metaWrite (sortedMeta cfg u)) :
    Accounts cfg env w u ((uploadFile cfg env w u).1, (uploadFile cfg env w u).2.1) := by
  obtain ⟨cs, hsave⟩ := storageSaveFile_of_chosen hc
  have he := @saveFileAs_full cfg env { w with calls := cs } u _ l k ho hs hm hmalloc hk hs'
  have hn := node_none_of_chosen hc ho.2.1
  have hkl : k ≠ l := metaFile_ne ho.2.1 hk.2.1
  have hboth := @storedBoth_node cfg env { w with calls := cs } u l k ho.2.2 hk.2.2
    (dataFile cfg filename)
  have hsame := sameLog_storedBoth_calls cfg env w u cs (dataFile cfg filename) l k
  refine accounts_logged hsame (hsave _ _ he) fun j => ?_
  have hj := node_two_ne_iff (x := reached env.write u.content)
    (y := reached env.metaWrite (sortedMeta cfg u)) hn hkl True j
  simp only [and_true] at hj
  have hstored : MetaStored cfg env w u filename k := ⟨hmalloc, hk, hs'⟩
  rw [hboth, hj, remains_iff hc ho]
  constructor
  · rintro (⟨hjl, hD⟩ | hM)
    · obtain hD | hD | hD := hD
      · exact absurd hD hs
      · exact absurd hstored (hD.2.1 k)
      · exact ⟨.inl hjl, hD.2⟩
    · have hjk : j = k := hk.unique hM.2.2.2.1
      exact ⟨.inr ⟨hjk, hjk ▸ hM.2.2.2.2.1⟩, hM.2.2.2.2.2.resolve_left hs'⟩
  · rintro ⟨hjl | ⟨hjk, hne⟩, hlog⟩
    · exact .inl ⟨hjl, .inr (.inr ⟨.inr ⟨k, hstored⟩, hlog⟩)⟩
    · exact .inr ⟨hs, hm, hmalloc, hjk ▸ hk, hjk ▸ hne, .inr hlog⟩

/-- Every upload that was parsed accounts for its files. -/
theorem uploadFile_accounts (cfg : Config) (env : RequestEnv) (w : World) (u : UploadRequest) :
    Accounts cfg env w u ((uploadFile cfg env w u).1, (uploadFile cfg env w u).2.1) := by
  cases hc : chosen cfg env w u with
  | none =>
    obtain ⟨cs, hsave⟩ := storageSaveFile_of_none hc
    refine accounts_failed hsave (by decide) fun j => iff_of_false (fun hne => hne rfl) ?_
    rintro ⟨filename, l, hc', -⟩
    rw [hc] at hc'
    cases hc'
  | some filename =>
    by_cases ho : ∃ l, Opens env.write w (dataFile cfg filename) l
    · obtain ⟨l, ho⟩ := ho
      by_cases hs : Reported env.write u.content
      · exact accounts_torn hc ho hs
      · by_cases hm : u.metaBytes = 0
        · exact accounts_plain hc ho hs hm
        · by_cases hk : env.metaMalloc = false ∧
              ∃ k, Opens env.metaWrite w (metaFile cfg filename) k
          · obtain ⟨hmalloc, k, hk⟩ := hk
            by_cases hs' : Reported env.metaWrite (sortedMeta cfg u)
            · exact accounts_tornMeta hc ho hs hm hmalloc hk hs'
            · exact accounts_full hc ho hs hm hmalloc hk hs'
          · exact accounts_noMeta hc ho hs hm fun hmalloc k h => hk ⟨hmalloc, k, h⟩
    · obtain ⟨cs, hsave⟩ := storageSaveFile_of_chosen hc
      obtain ⟨r, hr, he⟩ := @saveFileAs_refused cfg env { w with calls := cs } u _
        fun l hl => ho ⟨l, hl⟩
      refine accounts_failed (hsave _ _ he) hr fun j => iff_of_false (fun hne => hne rfl) ?_
      rintro ⟨filename', l, hc', ho', -⟩
      rw [hc] at hc'
      cases hc'
      exact ho ⟨l, ho'⟩

end Accounting

theorem storageUploadFile_parsed {n : ℤ} {inb : Inbound} {data : Bytes}
    (hdata : (recvAllocated env 0 sizeofPointer n inb).2 = .ok data)
    (hp : parseUpload n (uploadBuffer env n data) = .ok u)
    (hheard : (recvAllocated env 0 sizeofPointer n inb).1.Heard) (out : Outbound) :
    (storageUploadFile cfg env n inb out w).world = (uploadFile cfg env w u).1 ∧
      replyStatus cfg env n inb w = (uploadFile cfg env w u).2.1 := by
  have hb : ((recvAllocated env 0 sizeofPointer n inb).2.bind fun data =>
      parseUpload n (uploadBuffer env n data)) = .ok u := by
    rw [hdata]
    exact hp
  constructor
  · simp only [storageUploadFile, withBody, hb]
  · simp only [replyStatus, storageUploadFile, withBody, Outbound.awaiting_heard hheard, hb,
      tcpsenddata, sendLoop_nil, List.nil_append]
    generalize uploadFile cfg env w u = r
    obtain ⟨v, status, filename⟩ := r
    cases status with
    | none => rfl
    | some status =>
      simp only [replyWhenAlive_some]
      split_ifs with h0
      · exact replyHeader_status env _ _ _
      · simpa using replyHeader_status env 0 status []

/-- To a client that waits for the reply there is none. -/
theorem replyStatus_unheard {n : ℤ} {inb : Inbound}
    (h : ¬ (recvAllocated env 0 sizeofPointer n inb).1.Heard) :
    replyStatus cfg env n inb w = none := by
  have hf : handler cfg env STORAGE_PROTO_CMD_UPLOAD_FILE = some (storageUploadFile cfg env) := rfl
  obtain ⟨hsent, -⟩ := handler_unheard hf h ⟨[], []⟩ w
  exact congrArg (·[10]?) hsent

/-- A parsed upload that fails cleans up exactly when no reply says so or all that remains is at
places of the log. -/
theorem storageUploadFile_cleaned_iff (cfg : Config) (env : RequestEnv) (n : ℤ) (inb : Inbound)
    (out : Outbound) (w : World) {data : Bytes} {u : UploadRequest}
    (hdata : (recvAllocated env 0 sizeofPointer n inb).2 = .ok data)
    (hp : parseUpload n (uploadBuffer env n data) = .ok u) :
    Cleaned cfg env n inb out w ↔ ((recvAllocated env 0 sizeofPointer n inb).1.Heard →
      ∀ l, Remains cfg env w u l → LogPlace cfg w l) := by
  by_cases hheard : (recvAllocated env 0 sizeofPointer n inb).1.Heard
  · obtain ⟨hworld, hstatus⟩ := @storageUploadFile_parsed cfg env w u n inb data hdata hp hheard out
    obtain ⟨hok, hfail⟩ := uploadFile_accounts cfg env w u
    simp only [Cleaned, hworld, hstatus, hheard, true_imp_iff]
    constructor
    · intro h l hl
      by_contra hlog
      have hreply : ¬ ((uploadFile cfg env w u).2.1 = none ∨ (uploadFile cfg env w u).2.1 = some 0) :=
        fun h0 => hok h0 l hl
      obtain ⟨hsome, h0⟩ := not_or.mp hreply
      obtain ⟨status, hs⟩ := Option.ne_none_iff_exists'.mp hsome
      have hne : status ≠ 0 := fun he => h0 (hs.trans (congrArg some he))
      exact (hfail status hs hne l hlog).mpr hl (h status hs hne l hlog)
    · intro h status hs h0 l hlog
      by_contra hne
      exact hlog (h l ((hfail status hs h0 l hlog).mp hne))
  · refine iff_of_true (fun status hstatus => ?_) fun h => absurd h hheard
    rw [replyStatus_unheard hheard] at hstatus
    cases hstatus

/-- A store whose encoder has an alphabet, with the directory of one generated name. -/
def tableConfig : Config :=
  let alphabet := ascii "ABCDEFGHIJKLMNOPQRSTUVWXYZabcdefghijklmnopqrstuvwxyz0123456789-_"
  { sampleConfig with base64 := { initialState with valueToChar := fun i => alphabet.getD i 0 } }

def tableWorld : World :=
  let dir : Loc := [ascii "b", ascii "data", ascii "55"]
  { sampleWorld with tree := (sampleWorld.tree.makeDir dir).makeDir (dir ++ [ascii "51"]) }

/-- Five bytes of content, with the second length field in the memory `malloc` returned. -/
def recycledHeap (i : ℕ) : Byte := if i = 9 then 53 else 0

theorem failedMetadata_cleaned : Cleaned tableConfig { heap := recycledHeap, metaMalloc := true } 25
    ⟨[49, 0, 0, 0, 0, 0, 0, 0], []⟩ ⟨[], []⟩ tableWorld := by
  refine (@storageUploadFile_cleaned_iff tableConfig _ 25 _ ⟨[], []⟩ tableWorld
    [49, 0, 0, 0, 0, 0, 0, 0] ⟨1, [0], [0, 0, 0, 0, 0]⟩
    (by decide +kernel) (by decide +kernel)).mpr fun _ => ?_
  rintro j ⟨filename, l, -, -, ⟨-, hD⟩ | hM⟩
  · obtain ⟨k, hk, -⟩ | ⟨-, -, hu⟩ | ⟨h0 | ⟨k, hk⟩, -⟩ := hD
    · cases hk
    · cases hu
    · cases h0
    · cases hk.1
  · cases hM.2.2.1

/-- A data file whose record cannot be logged stays in the store behind a reply with an error. -/
theorem unloggedUpload_not_cleaned :
    parseUpload 24 (uploadBuffer { heap := recycledHeap } 24 [48, 0, 0, 0, 0, 0, 0, 0]) =
        .ok ⟨0, [], [0, 0, 0, 0, 0]⟩ ∧
      ¬ Cleaned tableConfig { heap := recycledHeap, log := { lock := true } } 24
        ⟨[48, 0, 0, 0, 0, 0, 0, 0], []⟩ ⟨[], []⟩ tableWorld := by
  refine ⟨by decide +kernel, fun h => ?_⟩
  let dir : Loc := [ascii "b", ascii "data", ascii "55", ascii "51"]
  have := h ENOENT (by decide +kernel) (by decide) (dir ++ [ascii "AAAAAAAAAAUAAAAA"]) ?_
  · exact absurd this (by decide +kernel)
  · rintro (⟨s, hs, hl⟩ | hl | hl)
    · cases hs
      exact absurd hl (by decide +kernel)
    · exact absurd hl (by decide +kernel)
    · exact absurd hl (by decide +kernel)

end Exits

end DemoStorage.UploadCleanup
