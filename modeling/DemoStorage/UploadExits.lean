import DemoStorage.KeptPaths
import DemoStorage.RequestHandlers

/-!
# The exits of saving an uploaded file

An upload looks for an unused name, writes the data file and, with metadata, sorts it and
writes the metadata file; a failure of the metadata unlinks the data file. Each exit is one
lemma with the condition it is taken on and the state it leaves.
-/

namespace DemoStorage.UploadExits
open ByteStrings PosixFileTree MetadataRecords GeneratedNames DaemonState
open BinlogWriting FileEffects KeptPaths RequestHandlers

section Names
variable (cfg : Config) (env : RequestEnv) (w : World) (u : UploadRequest)

/-- The generated name no file has yet. -/
def chosen : Option Bytes := (genUnusedFilename cfg env.clock u.content.length 1024 0 w).2

def dataFile (filename : Bytes) : Bytes := dataPath cfg (cstr filename)

def metaFile (filename : Bytes) : Bytes := dataFile cfg filename ++ STORAGE_META_FILE_EXT

/-- The metadata as it is written. -/
def sortedMeta : Bytes :=
  (storageSortMetadataBuff cfg.qsort false (u.metaBuff ++ [0])).2.take u.metaBytes

def MetaStored (filename : Bytes) (k : Loc) : Prop :=
  env.metaMalloc = false ∧ Opens env.metaWrite w (metaFile cfg filename) k ∧
    ¬ Reported env.metaWrite (sortedMeta cfg u)

/-- The files of the upload are saved under a name. -/
structure Saved (filename : Bytes) : Prop where
  chosen : chosen cfg env w u = some filename
  opens : ∃ l, Opens env.write w (dataFile cfg filename) l
  written : ¬ Reported env.write u.content
  metadata : u.metaBytes = 0 ∨ ∃ k, MetaStored cfg env w u filename k

end Names

section Exits
variable {cfg : Config} {env : RequestEnv} {w : World} {u : UploadRequest}

theorem genUnusedFilename_world (cfg : Config) (clock : ℕ → ℤ × ℤ) (fileSize : ℤ) (k i : ℕ)
    (w : World) : ∃ cs, (genUnusedFilename cfg clock fileSize k i w).1 = { w with calls := cs } := by
  induction k generalizing i w with
  | zero => exact ⟨w.calls, rfl⟩
  | succ k ih =>
    simp only [genUnusedFilename]
    split
    · obtain ⟨cs, h⟩ := ih (i + 1) (fileExists w _).1
      exact ⟨cs, h⟩
    · exact ⟨_, rfl⟩

theorem saveMetadata_sameLog (w : World) (full : Bytes) :
    SameLog w (saveMetadata cfg env w u full).1 := by
  simp only [saveMetadata]
  generalize storageSortMetadataBuff cfg.qsort env.metaMalloc (u.metaBuff ++ [0]) = x
  have hwrite := writeToFile_sameLog env.metaWrite w (full ++ STORAGE_META_FILE_EXT)
    (x.2.take u.metaBytes)
  split_ifs
  · exact unlink_sameLog _ _ _
  · exact hwrite.trans (unlink_sameLog _ _ _)
  · exact hwrite

/-- Saving the files leaves the log alone. -/
theorem storageSaveFile_sameLog (cfg : Config) (env : RequestEnv) (w : World) (u : UploadRequest) :
    SameLog w (storageSaveFile cfg env w u).1 := by
  obtain ⟨cs, hcs⟩ := genUnusedFilename_world cfg env.clock u.content.length 1024 0 w
  have h0 : SameLog w (genUnusedFilename cfg env.clock u.content.length 1024 0 w).1 := by
    rw [hcs]
    exact sameLog_calls w cs
  simp only [storageSaveFile]
  generalize genUnusedFilename cfg env.clock u.content.length 1024 0 w = x at h0
  obtain ⟨v, o⟩ := x
  cases o with
  | none => exact h0
  | some filename =>
    have h1 := h0.trans (writeToFile_sameLog env.write v (dataPath cfg (cstr filename)) u.content)
    simp only [saveFileAs]
    split_ifs
    · exact h1
    · exact h1
    · exact h1.trans (saveMetadata_sameLog _ _)

/-- The chosen name was not in use. -/
theorem genUnusedFilename_unused {clock : ℕ → ℤ × ℤ} {fileSize : ℤ} {k i : ℕ} {w : World}
    {filename : Bytes} (h : (genUnusedFilename cfg clock fileSize k i w).2 = some filename) :
    w.tree.access w.cwd (dataFile cfg filename) = false := by
  induction k generalizing i w with
  | zero => cases h
  | succ k ih =>
    simp only [genUnusedFilename] at h
    split at h
    · have := ih h
      exact this
    · rename_i hx
      cases h
      simpa [fileExists, dataFile] using hx

theorem node_none_of_chosen {filename : Bytes} {l : Loc} (h : chosen cfg env w u = some filename)
    (hl : w.locate (dataFile cfg filename) = .ok l) : w.tree.node l = none := by
  have hx := genUnusedFilename_unused h
  have hl' : w.tree.locate w.cwd (dataFile cfg filename) = .ok l := hl
  by_contra hn
  have : w.tree.access w.cwd (dataFile cfg filename) = true :=
    FileTree.access_eq_true.mpr ⟨l, hl', Option.isSome_iff_ne_none.mpr hn⟩
  rw [hx] at this
  cases this

theorem metaFile_ne {filename : Bytes} {l k : Loc} (hl : w.locate (dataFile cfg filename) = .ok l)
    (hk : w.locate (metaFile cfg filename) = .ok k) : k ≠ l := by
  rintro rfl
  exact locate_meta_ne hl hk

/-! The exits of saving the files under a path. -/

section Saves
variable {full : Bytes} {l k : Loc}

theorem saveFileAs_refused (h : ∀ l, ¬ Opens env.write w full l) :
    ∃ r, r ≠ 0 ∧ saveFileAs cfg env w u full = (w.touch full, r) := by
  have hne : errnoOr env.write.errno ENOENT ≠ 0 := errnoOr_ENOENT_ne_zero _
  refine ⟨_, hne, ?_⟩
  simp only [saveFileAs, writeToFile_of_not_opens h, hne, ne_eq, not_false_eq_true, if_true]

theorem saveFileAs_torn (ho : Opens env.write w full l) (hs : Reported env.write u.content) :
    ∃ r, r ≠ 0 ∧
      saveFileAs cfg env w u full = (stored w full l (reached env.write u.content), r) := by
  obtain ⟨r, hw, hr⟩ := writeToFile_of_opens ho u.content
  have hne : r ≠ 0 := fun h0 => hr.mp h0 hs
  refine ⟨r, hne, ?_⟩
  simp only [saveFileAs, hw, hne, ne_eq, not_false_eq_true, if_true]

private theorem saveFileAs_stored (ho : Opens env.write w full l)
    (hs : ¬ Reported env.write u.content) :
    saveFileAs cfg env w u full =
      if u.metaBytes = 0 then (stored w full l (reached env.write u.content), 0)
      else saveMetadata cfg env (stored w full l (reached env.write u.content)) u full := by
  obtain ⟨r, hw, hr⟩ := writeToFile_of_opens ho u.content
  simp only [saveFileAs, hw, hr.mpr hs, ne_eq, not_true_eq_false, if_false]

theorem saveFileAs_plain (ho : Opens env.write w full l) (hs : ¬ Reported env.write u.content)
    (hm : u.metaBytes = 0) :
    saveFileAs cfg env w u full = (stored w full l (reached env.write u.content), 0) := by
  rw [saveFileAs_stored ho hs, if_pos hm]

/-- The metadata cannot be sorted or its file cannot be opened. -/
theorem saveFileAs_noMeta (ho : Opens env.write w full l) (hs : ¬ Reported env.write u.content)
    (hm : u.metaBytes ≠ 0) (h : env.metaMalloc = false →
      ∀ k, ¬ Opens env.metaWrite w (full ++ STORAGE_META_FILE_EXT) k) :
    ∃ v r, r ≠ 0 ∧ SameLog w v ∧ v.tree = w.tree.setFile l (reached env.write u.content) ∧
      saveFileAs cfg env w u full = ((unlink env.unlinkData v full).1, r) := by
  have hsame := sameLog_stored w full l (reached env.write u.content)
  rw [saveFileAs_stored ho hs, if_neg hm]
  cases hmalloc : env.metaMalloc with
  | true =>
    have hENOMEM : ENOMEM ≠ 0 := by decide
    exact ⟨_, ENOMEM, hENOMEM, hsame, rfl, by
      simp only [saveMetadata, storageSortMetadataBuff, hmalloc, if_true, hENOMEM, ne_eq,
        not_false_eq_true]⟩
  | false =>
    have hne : errnoOr env.metaWrite.errno ENOENT ≠ 0 := errnoOr_ENOENT_ne_zero _
    have hw := writeToFile_of_not_opens (w := stored w full l (reached env.write u.content))
      (fun k hk => h hmalloc k (hsame.opens.mp hk)) (sortedMeta cfg u)
    refine ⟨(stored w full l (reached env.write u.content)).touch (full ++ STORAGE_META_FILE_EXT),
      _, hne, hsame.trans (sameLog_touch _ _), rfl, ?_⟩
    simp only [sortedMeta] at hw
    simp only [saveMetadata, storageSortMetadataBuff, hmalloc, Bool.false_eq_true, if_false] at hw ⊢
    simp only [hw, hne, ne_eq, not_true_eq_false, not_false_eq_true, if_true, if_false]

/-- Both files as far as they reach the disk. -/
def storedBoth (cfg : Config) (env : RequestEnv) (w : World) (u : UploadRequest) (full : Bytes)
    (l k : Loc) : World :=
  stored (stored w full l (reached env.write u.content)) (full ++ STORAGE_META_FILE_EXT) k
    (reached env.metaWrite (sortedMeta cfg u))

theorem sameLog_storedBoth (cfg : Config) (env : RequestEnv) (w : World) (u : UploadRequest)
    (full : Bytes) (l k : Loc) : SameLog w (storedBoth cfg env w u full l k) :=
  (sameLog_stored _ _ _ _).trans (sameLog_stored _ _ _ _)

private theorem writeMeta_eq (ho : Opens env.metaWrite w (full ++ STORAGE_META_FILE_EXT) k) :
    ∃ r, writeToFile env.metaWrite (stored w full l (reached env.write u.content))
        (full ++ STORAGE_META_FILE_EXT) (sortedMeta cfg u) =
          (storedBoth cfg env w u full l k, r) ∧
      (r = 0 ↔ ¬ Reported env.metaWrite (sortedMeta cfg u)) :=
  writeToFile_of_opens ((sameLog_stored w full l (reached env.write u.content)).opens.mpr ho) _

theorem saveFileAs_tornMeta (ho : Opens env.write w full l) (hs : ¬ Reported env.write u.content)
    (hm : u.metaBytes ≠ 0) (hmalloc : env.metaMalloc = false)
    (hk : Opens env.metaWrite w (full ++ STORAGE_META_FILE_EXT) k)
    (hs' : Reported env.metaWrite (sortedMeta cfg u)) : ∃ r, r ≠ 0 ∧ saveFileAs cfg env w u full =
      ((unlink env.unlinkData (storedBoth cfg env w u full l k) full).1, r) := by
  obtain ⟨r, hw, hr⟩ := @writeMeta_eq cfg env w u full l k hk
  have hne : r ≠ 0 := fun h0 => hr.mp h0 hs'
  refine ⟨r, hne, ?_⟩
  rw [saveFileAs_stored ho hs, if_neg hm]
  simp only [sortedMeta] at hw
  simp only [saveMetadata, storageSortMetadataBuff, hmalloc, Bool.false_eq_true, if_false] at hw ⊢
  simp only [hw, hne, ne_eq, not_true_eq_false, not_false_eq_true, if_true, if_false]

theorem saveFileAs_full (ho : Opens env.write w full l) (hs : ¬ Reported env.write u.content)
    (hm : u.metaBytes ≠ 0) (hmalloc : env.metaMalloc = false)
    (hk : Opens env.metaWrite w (full ++ STORAGE_META_FILE_EXT) k)
    (hs' : ¬ Reported env.metaWrite (sortedMeta cfg u)) :
    saveFileAs cfg env w u full = (storedBoth cfg env w u full l k, 0) := by
  obtain ⟨r, hw, hr⟩ := @writeMeta_eq cfg env w u full l k hk
  rw [saveFileAs_stored ho hs, if_neg hm]
  simp only [sortedMeta] at hw
  simp only [saveMetadata, storageSortMetadataBuff, hmalloc, Bool.false_eq_true, if_false] at hw ⊢
  simp only [hw, hr.mpr hs', ne_eq, not_true_eq_false, if_false]

end Saves

/-- Without a name that is free nothing is saved. -/
theorem storageSaveFile_of_none (hc : chosen cfg env w u = none) :
    ∃ cs, storageSaveFile cfg env w u = ({ w with calls := cs }, ENOENT, []) := by
  obtain ⟨cs, hv⟩ := genUnusedFilename_world cfg env.clock u.content.length 1024 0 w
  have hgen : genUnusedFilename cfg env.clock u.content.length 1024 0 w =
      ({ w with calls := cs }, none) := Prod.ext hv hc
  exact ⟨cs, by simp only [storageSaveFile, hgen]⟩

theorem storageSaveFile_of_chosen {filename : Bytes} (hc : chosen cfg env w u = some filename) :
    ∃ cs, ∀ d r, saveFileAs cfg env { w with calls := cs } u (dataFile cfg filename) = (d, r) →
      storageSaveFile cfg env w u = (d, r, if r = 0 then filename else []) := by
  obtain ⟨cs, hv⟩ := genUnusedFilename_world cfg env.clock u.content.length 1024 0 w
  refine ⟨cs, fun d r h => ?_⟩
  have hgen : genUnusedFilename cfg env.clock u.content.length 1024 0 w =
      ({ w with calls := cs }, some filename) := Prod.ext hv hc
  rw [dataFile] at h
  simp only [storageSaveFile, hgen, h]

theorem saveFileAs_eq_zero {full : Bytes} : (saveFileAs cfg env w u full).2 = 0 ↔
    (∃ l, Opens env.write w full l) ∧ ¬ Reported env.write u.content ∧
      (u.metaBytes = 0 ∨ ∃ k, env.metaMalloc = false ∧
        Opens env.metaWrite w (full ++ STORAGE_META_FILE_EXT) k ∧
        ¬ Reported env.metaWrite (sortedMeta cfg u)) := by
  by_cases ho : ∃ l, Opens env.write w full l
  · obtain ⟨l, ho⟩ := ho
    by_cases hs : Reported env.write u.content
    · obtain ⟨r, hr, he⟩ := @saveFileAs_torn cfg env w u full l ho hs
      exact iff_of_false (by rw [he]; exact hr) fun h => h.2.1 hs
    · by_cases hm : u.metaBytes = 0
      · exact iff_of_true (by rw [saveFileAs_plain ho hs hm]) ⟨⟨l, ho⟩, hs, .inl hm⟩
      · by_cases hk : env.metaMalloc = false ∧
            ∃ k, Opens env.metaWrite w (full ++ STORAGE_META_FILE_EXT) k
        · obtain ⟨hmalloc, k, hk⟩ := hk
          by_cases hs' : Reported env.metaWrite (sortedMeta cfg u)
          · obtain ⟨r, hr, he⟩ := saveFileAs_tornMeta ho hs hm hmalloc hk hs'
            refine iff_of_false (by rw [he]; exact hr) fun h => ?_
            obtain hm' | ⟨-, -, -, hno⟩ := h.2.2
            · exact hm hm'
            · exact hno hs'
          · exact iff_of_true (by rw [saveFileAs_full ho hs hm hmalloc hk hs'])
              ⟨⟨l, ho⟩, hs, .inr ⟨k, hmalloc, hk, hs'⟩⟩
        · obtain ⟨v, r, hr, -, -, he⟩ := @saveFileAs_noMeta cfg env w u full l ho hs hm
            fun hmalloc k h => hk ⟨hmalloc, k, h⟩
          refine iff_of_false (by rw [he]; exact hr) fun h => ?_
          obtain hm' | ⟨k, hmalloc, h', -⟩ := h.2.2
          · exact hm hm'
          · exact hk ⟨hmalloc, k, h'⟩
  · obtain ⟨r, hr, he⟩ := @saveFileAs_refused cfg env w u full fun l hl => ho ⟨l, hl⟩
    exact iff_of_false (by rw [he]; exact hr) fun h => ho h.1

/-- Saving returns 0 with the name under which it has saved the files. -/
theorem storageSaveFile_eq_zero {filename : Bytes} :
    (storageSaveFile cfg env w u).2 = (0, filename) ↔ Saved cfg env w u filename := by
  cases hc : chosen cfg env w u with
  | none =>
    obtain ⟨cs, he⟩ := storageSaveFile_of_none hc
    refine iff_of_false (by simp [he, ENOENT]) fun h => ?_
    cases hc.symm.trans h.chosen
  | some name =>
    obtain ⟨cs, hsave⟩ := storageSaveFile_of_chosen hc
    have hzero := @saveFileAs_eq_zero cfg env { w with calls := cs } u (dataFile cfg name)
    obtain ⟨d, r, he⟩ : ∃ d r, saveFileAs cfg env { w with calls := cs } u (dataFile cfg name) =
        (d, r) := ⟨_, _, rfl⟩
    rw [he] at hzero
    rw [hsave d r he]
    by_cases h0 : r = 0
    · obtain ⟨hopen, hwritten, hmeta⟩ := hzero.mp h0
      simp only [h0, if_true, Prod.mk.injEq, true_and]
      constructor
      · rintro rfl
        exact ⟨hc, hopen, hwritten, hmeta⟩
      · exact fun h => Option.some.inj (hc.symm.trans h.chosen)
    · refine iff_of_false (by simp [h0]) fun h => h0 (hzero.mpr ?_)
      obtain rfl : name = filename := Option.some.inj (hc.symm.trans h.chosen)
      exact ⟨h.opens, h.written, h.metadata⟩

end Exits

end DemoStorage.UploadExits
