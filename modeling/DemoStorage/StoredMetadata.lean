import DemoStorage.MetadataPacking
import DemoStorage.UploadCleanup

/-!
# The metadata file of an upload

A saved upload sorts and packs its metadata in the package and then writes as many bytes as
were uploaded. What packing dropped or cut stays behind its NUL and goes into the file as
well, so the file is the packed text exactly when there was nothing to drop or cut, or when a
flush that fails at `fclose` loses just that. Nobody asks for the result of `fclose`: an upload
whose flush fails is saved.
-/

namespace DemoStorage.StoredMetadata
open ByteStrings PosixFileTree SeparatedLists MetadataRecords MetadataPacking DaemonState
open FileEffects RequestHandlers UploadExits UploadCleanup

/-- The metadata file of a name holds the bytes. -/
def MetaFileHolds (cfg : Config) (w : World) (filename content : Bytes) : Prop :=
  ∃ k, w.locate (metaFile cfg filename) = .ok k ∧ w.tree.content k = some content

/-- The records of uploaded metadata in the order they are stored in. -/
def uploadedRecords (cfg : Config) (metaBuff : Bytes) : List FDFSMetaData :=
  cfg.qsort.sort (records (cstr metaBuff))

/-- The metadata file is the packed text of the uploaded records, and splits back into them. -/
structure StoredCanonically (cfg : Config) (w : World) (filename metaBuff : Bytes) : Prop where
  content : MetaFileHolds cfg w filename (packed (uploadedRecords cfg metaBuff))
  splits : (fdfsSplitMetadataEx (packed (uploadedRecords cfg metaBuff) ++ [0])
    FDFS_RECORD_SEPERATOR FDFS_FIELD_SEPERATOR).1 = uploadedRecords cfg metaBuff

section Saved
variable {cfg : Config} {env : RequestEnv} {w w' : World} {u : UploadRequest} {filename : Bytes}

/-- The one exit of saving the files that reports success on metadata. -/
theorem saveFileAs_zero {full : Bytes} (hm : u.metaBytes ≠ 0)
    (h : saveFileAs cfg env w u full = (w', 0)) : ∃ l k, Opens env.write w full l ∧
      Opens env.metaWrite w (full ++ STORAGE_META_FILE_EXT) k ∧
      ¬ Reported env.metaWrite (sortedMeta cfg u) ∧ w' = storedBoth cfg env w u full l k := by
  have hfail {d : World} {r : Errno} (hr : r ≠ 0)
      (he : saveFileAs cfg env w u full = (d, r)) : False := by
    rw [h] at he
    exact hr (Prod.mk.inj he).2.symm
  by_cases ho : ∃ l, Opens env.write w full l
  · obtain ⟨l, ho⟩ := ho
    by_cases hs : Reported env.write u.content
    · obtain ⟨r, hr, he⟩ := @saveFileAs_torn cfg env w u full l ho hs
      exact (hfail hr he).elim
    · by_cases hk : env.metaMalloc = false ∧
          ∃ k, Opens env.metaWrite w (full ++ STORAGE_META_FILE_EXT) k
      · obtain ⟨hmalloc, k, hk⟩ := hk
        by_cases hs' : Reported env.metaWrite (sortedMeta cfg u)
        · obtain ⟨r, hr, he⟩ := saveFileAs_tornMeta ho hs hm hmalloc hk hs'
          exact (hfail hr he).elim
        · rw [saveFileAs_full ho hs hm hmalloc hk hs'] at h
          exact ⟨l, k, ho, hk, hs', (Prod.mk.inj h).1.symm⟩
      · obtain ⟨v, r, hr, -, -, he⟩ := @saveFileAs_noMeta cfg env w u full l ho hs hm
          fun hmalloc k ho' => hk ⟨hmalloc, k, ho'⟩
        exact (hfail hr he).elim
  · obtain ⟨r, hr, he⟩ := @saveFileAs_refused cfg env w u full fun l hl => ho ⟨l, hl⟩
    exact (hfail hr he).elim

/-- A saved upload leaves its sorted buffer in the metadata file, as far as `fclose` flushes it. -/
theorem metaFileHolds_of_saved (h : storageSaveFile cfg env w u = (w', 0, filename))
    (hm : u.metaBytes ≠ 0) :
    MetaFileHolds cfg w' filename (leftByFclose env.metaWrite (sortedMeta cfg u)) := by
  cases hc : chosen cfg env w u with
  | none =>
    have hgen : genUnusedFilename cfg env.clock u.content.length 1024 0 w =
        ((genUnusedFilename cfg env.clock u.content.length 1024 0 w).1, none) := Prod.ext rfl hc
    rw [storageSaveFile, hgen] at h
    cases h
  | some name =>
    obtain ⟨cs, hsave⟩ := storageSaveFile_of_chosen hc
    obtain ⟨d, r, hd⟩ : ∃ d r, saveFileAs cfg env { w with calls := cs } u (dataFile cfg name) =
      (d, r) := ⟨_, _, rfl⟩
    rw [hsave d r hd] at h
    obtain ⟨rfl, hr⟩ := Prod.mk.inj h
    obtain ⟨rfl, hname⟩ := Prod.mk.inj hr
    rw [if_pos rfl] at hname
    subst hname
    obtain ⟨l, k, -, ⟨-, hk, hholds⟩, hs, rfl⟩ := saveFileAs_zero hm hd
    have hset : (storedBoth cfg env { w with calls := cs } u (dataFile cfg name) l k).tree =
        (w.tree.setFile l (reached env.write u.content)).setFile k
          (leftByFclose env.metaWrite (sortedMeta cfg u)) := by
      rw [storedBoth, reached_of_not_reported hs]
      rfl
    refine ⟨k, ?_, ?_⟩
    · have hdir (p : Loc) : (storedBoth cfg env { w with calls := cs } u (dataFile cfg name) l
          k).tree.isDir p = w.tree.isDir p := by simp [hset]
      exact (FileTree.locate_ok_congr hdir w.cwd _ k).mpr hk
    · rw [hset, FileTree.content_setFile (by simpa using hholds), if_pos rfl]

end Saved

section Canonical
variable {cfg : Config} {w : World} {u : UploadRequest} {filename : Bytes}

theorem MetaFileHolds.unique {a b : Bytes} (h : MetaFileHolds cfg w filename a)
    (h' : MetaFileHolds cfg w filename b) : a = b := by
  obtain ⟨k, hk, ha⟩ := h
  obtain ⟨l, hl, hb⟩ := h'
  obtain rfl : k = l := Except.ok.inj (hk.symm.trans hl)
  exact Option.some.inj (ha.symm.trans hb)

theorem cstr_append_zero (b : Bytes) : cstr (b ++ [0]) = cstr b := by
  induction b with
  | nil => rfl
  | cons c b ih =>
    rw [List.cons_append, cstr, cstr]
    split
    · rfl
    · rw [ih]

theorem length_cstr_eq_iff (b : Bytes) : (cstr b).length = b.length ↔ 0 ∉ b := by
  induction b with
  | nil => simp
  | cons c b ih =>
    have hle := length_cstr_le b
    rw [cstr]
    split
    · rename_i hc
      simp [hc]
    · rename_i hc
      rw [List.length_cons, List.length_cons, Nat.add_right_cancel_iff, ih]
      simp [Ne.symm hc]

/-- The sorted buffer: the packed text, its NUL, and what is left of the package. -/
theorem storageSortMetadataBuff_eq (q : MetaQsort) {metaBuff : Bytes}
    (h : records (cstr metaBuff) ≠ []) :
    ∃ rest, (storageSortMetadataBuff q false (metaBuff ++ [0])).2 =
      packed (q.sort (records (cstr metaBuff))) ++ 0 :: rest ∧
      (packed (q.sort (records (cstr metaBuff)))).length + rest.length = metaBuff.length := by
  have hsort := sort_ne_nil (q := q) h
  have hlen := length_packed hsort
  have hle := weight_records_text_le (cstr metaBuff)
  have hcstr := length_cstr_le metaBuff
  rw [weight_sort] at hlen
  have hbuff : (fdfsSplitMetadataEx (metaBuff ++ [0]) FDFS_RECORD_SEPERATOR
      FDFS_FIELD_SEPERATOR).2.length = metaBuff.length + 1 := by
    rw [fdfsSplitMetadataEx, splitEx, if_neg (by omega), length_splitCols, List.length_append]
    rfl
  refine ⟨(fdfsSplitMetadataEx (metaBuff ++ [0]) FDFS_RECORD_SEPERATOR FDFS_FIELD_SEPERATOR).2.drop
    ((packed (q.sort (records (cstr metaBuff)))).length + 1), ?_, ?_⟩
  · rw [storageSortMetadataBuff, if_neg (by decide)]
    dsimp only
    rw [fdfsSplitMetadataEx_records, cstr_append_zero, fdfsPackMetadata_eq hsort]
  · rw [List.length_drop, hbuff]
    omega

/-- The packed text as long as what was uploaded. -/
def NothingLost (cfg : Config) (metaBuff : Bytes) : Prop :=
  (packed (uploadedRecords cfg metaBuff)).length = metaBuff.length

/-- What is written is the packed text exactly when packing has lost nothing. -/
theorem sortedMeta_eq_packed_iff (hlen : u.metaBuff.length = u.metaBytes)
    (h : records (cstr u.metaBuff) ≠ []) :
    sortedMeta cfg u = packed (uploadedRecords cfg u.metaBuff) ↔ NothingLost cfg u.metaBuff := by
  obtain ⟨rest, hsorted, hrest⟩ := storageSortMetadataBuff_eq cfg.qsort h
  rw [sortedMeta, hsorted, NothingLost, uploadedRecords]
  constructor
  · intro he
    rw [← he, List.length_take, List.length_append, List.length_cons]
    omega
  · intro he
    rw [← hlen, ← he, List.take_left']
    rfl

/-- Nothing is lost of a string of complete rows, and something of any other block. -/
theorem nothingLost_iff {metaBuff : Bytes} (h : records (cstr metaBuff) ≠ []) :
    NothingLost cfg metaBuff ↔
      0 ∉ metaBuff ∧ ∀ row ∈ metaBuff.splitOn FDFS_RECORD_SEPERATOR, CompleteRow row := by
  have hpacked := length_packed (sort_ne_nil (q := cfg.qsort) h)
  rw [weight_sort] at hpacked
  have hle := weight_records_text_le (cstr metaBuff)
  have hcstr := length_cstr_le metaBuff
  have hiff := weight_records_text_eq (zero_notMem_cstr metaBuff)
  rw [NothingLost, uploadedRecords, ← length_cstr_eq_iff]
  constructor
  · intro he
    have hself : (cstr metaBuff).length = metaBuff.length := by omega
    have hplain := cstr_eq_self ((length_cstr_eq_iff metaBuff).mp hself)
    rw [hplain] at hiff hpacked he
    exact ⟨by rw [hplain], hiff.mp (by omega)⟩
  · rintro ⟨hself, hrows⟩
    have hplain := cstr_eq_self ((length_cstr_eq_iff metaBuff).mp hself)
    rw [hplain] at hiff hpacked ⊢
    have hweight := hiff.mpr hrows
    omega

theorem uploadedRecords_splittable (cfg : Config) (metaBuff : Bytes) :
    ∀ m ∈ uploadedRecords cfg metaBuff, Splittable m :=
  fun m hm => splittable_records _ m ((cfg.qsort.perm _).mem_iff.mp hm)

/-- A file that is the packed text splits back into the records. -/
theorem split_stored {metaBuff : Bytes} (h : records (cstr metaBuff) ≠ []) :
    (fdfsSplitMetadataEx (packed (uploadedRecords cfg metaBuff) ++ [0])
      FDFS_RECORD_SEPERATOR FDFS_FIELD_SEPERATOR).1 = uploadedRecords cfg metaBuff := by
  rw [fdfsSplitMetadataEx_records, cstr_append_zero, cstr_eq_self (zero_notMem_packed _)]
  exact records_packed (sort_ne_nil h) (uploadedRecords_splittable cfg metaBuff)

variable {env : RequestEnv} {w' : World}

/-- The flush at `fclose` loses bytes of a block of this size. -/
def FlushLoses (f : WriteFaults) (metaBuff : Bytes) : Prop :=
  ∃ k, f.fclose = some k ∧ k < metaBuff.length

/-- It loses exactly what follows the packed text. -/
def FlushCutsBehind (cfg : Config) (f : WriteFaults) (metaBuff : Bytes) : Prop :=
  f.fclose = some (packed (uploadedRecords cfg metaBuff)).length

theorem length_sortedMeta (hlen : u.metaBuff.length = u.metaBytes)
    (h : records (cstr u.metaBuff) ≠ []) : (sortedMeta cfg u).length = u.metaBuff.length := by
  obtain ⟨rest, hsorted, hrest⟩ := storageSortMetadataBuff_eq cfg.qsort h
  rw [sortedMeta, hsorted, List.length_take, List.length_append, List.length_cons]
  omega

/-- What is left of the sorted buffer is the packed text when nothing was lost of either, or
when the flush cuts it right behind the text. -/
theorem leftByFclose_eq_packed_iff (hlen : u.metaBuff.length = u.metaBytes)
    (h : records (cstr u.metaBuff) ≠ []) (f : WriteFaults) :
    leftByFclose f (sortedMeta cfg u) = packed (uploadedRecords cfg u.metaBuff) ↔
      NothingLost cfg u.metaBuff ∧ ¬ FlushLoses f u.metaBuff ∨
        FlushCutsBehind cfg f u.metaBuff := by
  have hsize := @length_sortedMeta cfg u hlen h
  rw [← sortedMeta_eq_packed_iff hlen h]
  simp only [leftByFclose, FlushLoses, FlushCutsBehind]
  cases f.fclose with
  | none => simp
  | some k =>
    simp only [Option.some.injEq, exists_eq_left', not_lt]
    obtain ⟨rest, hsorted, hrest⟩ := storageSortMetadataBuff_eq cfg.qsort h
    have hprefix : (packed (uploadedRecords cfg u.metaBuff)).IsPrefix (sortedMeta cfg u) := by
      rw [sortedMeta, hsorted, List.prefix_take_iff]
      refine ⟨List.prefix_append _ _, ?_⟩
      rw [uploadedRecords]
      omega
    constructor
    · intro htake
      by_cases hk : u.metaBuff.length ≤ k
      · rw [List.take_of_length_le (hsize.trans_le hk)] at htake
        exact .inl ⟨htake, hk⟩
      · refine .inr ?_
        rw [← htake, List.length_take]
        omega
    · rintro (⟨heq, hk⟩ | rfl)
      · rw [List.take_of_length_le (hsize.trans_le hk), heq]
      · exact (List.prefix_iff_eq_take.mp hprefix).symm

variable {env : RequestEnv} {w' : World}

theorem storedCanonically_iff_nothingLost (hsave : storageSaveFile cfg env w u = (w', 0, filename))
    (hlen : u.metaBuff.length = u.metaBytes) (h : records (cstr u.metaBuff) ≠ []) :
    StoredCanonically cfg w' filename u.metaBuff ↔
      NothingLost cfg u.metaBuff ∧ ¬ FlushLoses env.metaWrite u.metaBuff ∨
        FlushCutsBehind cfg env.metaWrite u.metaBuff := by
  have hm : u.metaBytes ≠ 0 := by
    intro h0
    have hnil : u.metaBuff = [] := List.length_eq_zero_iff.mp (hlen.trans h0)
    rw [hnil] at h
    exact h (by decide)
  have hfile := metaFileHolds_of_saved hsave hm
  rw [← leftByFclose_eq_packed_iff hlen h]
  constructor
  · intro hc
    exact hfile.unique hc.content
  · intro he
    exact ⟨he ▸ hfile, split_stored h⟩

end Canonical

/-- A saved upload with a record stores its metadata canonically exactly when the block is a
string whose rows are all complete and no byte is lost at `fclose`, or just those are lost there
that follow the packed text. -/
theorem stored_metadata_canonical_iff (cfg : Config) (env : RequestEnv) (w w' : World)
    (u : UploadRequest) (filename : Bytes) (hlen : u.metaBuff.length = u.metaBytes)
    (hrecord : ∃ row ∈ (cstr u.metaBuff).splitOn FDFS_RECORD_SEPERATOR, FDFS_FIELD_SEPERATOR ∈ row)
    (hsave : storageSaveFile cfg env w u = (w', 0, filename)) :
    StoredCanonically cfg w' filename u.metaBuff ↔
      (0 ∉ u.metaBuff ∧ ∀ row ∈ u.metaBuff.splitOn FDFS_RECORD_SEPERATOR, CompleteRow row) ∧
          ¬ FlushLoses env.metaWrite u.metaBuff ∨
        FlushCutsBehind cfg env.metaWrite u.metaBuff := by
  have hne := (records_ne_nil_iff _).mpr hrecord
  rw [storedCanonically_iff_nothingLost hsave hlen hne, nothingLost_iff hne]

/-- One record, as a client sends it. -/
def oneRecord : UploadRequest where
  metaBytes := 3
  metaBuff := [97, 2, 49]
  content := ascii "hello"

/-- The same record with the record separator behind it. -/
def trailingSeparator : UploadRequest where
  metaBytes := 4
  metaBuff := [97, 2, 49, 1]
  content := ascii "hello"

theorem saved_eq {r : World × Errno × Bytes} (h : r.2.1 = 0) : r = (r.1, 0, r.2.2) :=
  Prod.ext rfl (Prod.ext h rfl)

theorem oneRecord_canonical : StoredCanonically tableConfig
    (storageSaveFile tableConfig {} tableWorld oneRecord).1
    (storageSaveFile tableConfig {} tableWorld oneRecord).2.2 oneRecord.metaBuff := by
  refine (stored_metadata_canonical_iff tableConfig {} tableWorld _ oneRecord _ rfl
    ⟨[97, 2, 49], by decide, by decide⟩ (saved_eq (by decide +kernel))).mpr
    (.inl ⟨⟨by decide, ?_⟩, fun ⟨k, hk, _⟩ => nomatch hk⟩)
  have hrows : oneRecord.metaBuff.splitOn FDFS_RECORD_SEPERATOR = [[97, 2, 49]] := by decide
  rw [hrows, List.forall_mem_singleton]
  exact ⟨[97], [49], rfl, by decide, by decide, by decide⟩

theorem trailingSeparator_not_canonical :
    (storageSaveFile tableConfig {} tableWorld trailingSeparator).2.1 = 0 ∧
    ¬ StoredCanonically tableConfig
      (storageSaveFile tableConfig {} tableWorld trailingSeparator).1
      (storageSaveFile tableConfig {} tableWorld trailingSeparator).2.2
      trailingSeparator.metaBuff := by
  have hne : records (cstr trailingSeparator.metaBuff) ≠ [] := by decide
  have hsaved : (storageSaveFile tableConfig {} tableWorld trailingSeparator).2.1 = 0 := by
    decide +kernel
  refine ⟨hsaved, fun hc => ?_⟩
  obtain ⟨hlost, -⟩ | hcut := (storedCanonically_iff_nothingLost (saved_eq hsaved) rfl hne).mp hc
  swap
  · cases hcut
  have hpacked := length_packed (sort_ne_nil (q := tableConfig.qsort) hne)
  rw [weight_sort, ← uploadedRecords, hlost] at hpacked
  exact absurd hpacked (by decide)

end DemoStorage.StoredMetadata
