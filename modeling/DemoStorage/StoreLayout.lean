import DemoStorage.SetJournals
import DemoStorage.UploadExits
import DemoStorage.LogWrites

/-!
# The files of the store's layout

A file of the store lies two directories below the data directory, each named by two hex
digits. Different names of this layout lead to different places, so writing and unlinking
through one of them adds or drops exactly that name.
-/

namespace DemoStorage.StoreLayout
open ByteStrings LexicalPaths PosixFileTree GeneratedNames DaemonState BinlogWriting
open FileEffects LogWrites UploadExits SetJournals

/-- `XX/YY/name` with no dot component. -/
def InLayout (name : Bytes) : Prop :=
  ∃ a b z, name = hexPair a ++ slash :: (hexPair b ++ slash :: z) ∧ slash ∉ z ∧ 0 ∉ z ∧
    component z = .name z

/-- The names of the layout that lead to a file. -/
def Existing (cfg : Config) (w : World) : Set Bytes :=
  {name | InLayout name ∧ ∃ l, w.locate (dataPath cfg name) = .ok l ∧ (w.tree.content l).isSome}

section Names

private theorem components_layout {a b : ℕ} {z : Bytes} (hz : slash ∉ z)
    (hc : component z = .name z) : components (hexPair a ++ slash :: (hexPair b ++ slash :: z)) =
      [.name (hexPair a), .name (hexPair b), .name z] := by
  rw [components_append_slash, components_append_slash, components_of_notMem hz,
    components_of_notMem (slash_notMem_hexPair a), components_of_notMem (slash_notMem_hexPair b),
    component_hexPair, component_hexPair, hc]
  rfl

private theorem lexical_layout (cfg : Config) (cwd : Loc) {a b : ℕ} {z : Bytes} (hz : slash ∉ z)
    (hc : component z = .name z) :
    lexical cwd (dataPath cfg (hexPair a ++ slash :: (hexPair b ++ slash :: z))) =
      dataDir cfg cwd ++ [hexPair a, hexPair b, z] := by
  rw [lexical_dataPath, components_layout hz hc]
  simp [Component.apply]

theorem InLayout.lexical_eq {name : Bytes} (h : InLayout name) (cfg : Config) (cwd : Loc) :
    ∃ x y z, lexical cwd (dataPath cfg name) = dataDir cfg cwd ++ [x, y, z] := by
  obtain ⟨a, b, z, rfl, hz, -, hc⟩ := h
  exact ⟨hexPair a, hexPair b, z, lexical_layout cfg cwd hz hc⟩

/-- The place of a file of the layout is two directories below the data directory. -/
theorem InLayout.place {cfg : Config} {w : World} {name : Bytes} {l : Loc} (h : InLayout name)
    (hl : w.locate (dataPath cfg name) = .ok l) :
    ∃ x y z, l = dataDir cfg w.cwd ++ [x, y, z] := by
  rw [FileTree.locate_lexical hl]
  exact h.lexical_eq cfg w.cwd

/-- Each name has its own place. -/
theorem InLayout.lexical_inj {cfg : Config} {cwd : Loc} {name name' : Bytes} (h : InLayout name)
    (h' : InLayout name')
    (he : lexical cwd (dataPath cfg name) = lexical cwd (dataPath cfg name')) : name = name' := by
  obtain ⟨a, b, z, rfl, hz, -, hc⟩ := h
  obtain ⟨a', b', z', rfl, hz', -, hc'⟩ := h'
  rw [lexical_layout cfg _ hz hc, lexical_layout cfg _ hz' hc'] at he
  have htail := List.append_cancel_left he
  simp only [List.cons.injEq, and_true] at htail
  obtain ⟨ha, hb, rfl⟩ := htail
  rw [ha, hb]

/-- Each name denotes its own file. -/
theorem layout_injective {cfg : Config} {w : World} {name name' : Bytes} {l : Loc}
    (h : InLayout name) (h' : InLayout name') (hl : w.locate (dataPath cfg name) = .ok l)
    (hl' : w.locate (dataPath cfg name') = .ok l) : name = name' :=
  h.lexical_inj h' ((FileTree.locate_lexical hl).symm.trans (FileTree.locate_lexical hl'))

theorem InLayout.zero_notMem {name : Bytes} (h : InLayout name) : 0 ∉ name := by
  obtain ⟨a, b, z, rfl, -, h0, -⟩ := h
  have hslash : (0 : Byte) ≠ slash := by decide
  simp [zero_notMem_hexPair, h0, hslash]

theorem InLayout.cstr_eq {name : Bytes} (h : InLayout name) : cstr name = name :=
  cstr_eq_self h.zero_notMem

/-- The metadata file of a file of the layout is one as well. -/
theorem InLayout.metaName {name : Bytes} (h : InLayout name) :
    InLayout (name ++ STORAGE_META_FILE_EXT) := by
  obtain ⟨a, b, z, rfl, hz, h0, -⟩ := h
  have hs : slash ∉ STORAGE_META_FILE_EXT := by decide
  have hn : 0 ∉ STORAGE_META_FILE_EXT := by decide
  exact ⟨a, b, z ++ STORAGE_META_FILE_EXT, by simp, by simp [hz, hs], by simp [h0, hn],
    component_meta z⟩

theorem metaName_ne (name : Bytes) : name ++ STORAGE_META_FILE_EXT ≠ name := by
  have hne : STORAGE_META_FILE_EXT ≠ [] := by decide
  simp [hne]

end Names

section Effects
variable {cfg : Config} {w v : World} {name : Bytes} {k l : Loc}

theorem mem_existing (h : InLayout name) (hl : w.locate (dataPath cfg name) = .ok l) :
    name ∈ Existing cfg w ↔ (w.tree.content l).isSome := by
  constructor
  · rintro ⟨-, k, hk, hc⟩
    rwa [Except.ok.inj (hl.symm.trans hk)]
  · exact fun hc => ⟨h, l, hl, hc⟩

/-- The names are those of the files at the places of the layout. -/
theorem existing_congr (hl : ∀ p l, v.locate p = .ok l ↔ w.locate p = .ok l)
    (hc : ∀ name l, InLayout name → w.locate (dataPath cfg name) = .ok l →
      (v.tree.content l).isSome = (w.tree.content l).isSome) : Existing cfg v = Existing cfg w := by
  ext name
  constructor
  · rintro ⟨h, l, hloc, hsome⟩
    have hw := (hl _ l).mp hloc
    exact ⟨h, l, hw, hc name l h hw ▸ hsome⟩
  · rintro ⟨h, l, hloc, hsome⟩
    exact ⟨h, l, (hl _ l).mpr hloc, (hc name l h hloc).symm ▸ hsome⟩

/-- Nothing happens to the files when only another place changes. -/
theorem existing_apart (h : Apart (· = l) w v)
    (ho : ∀ name, InLayout name → w.locate (dataPath cfg name) ≠ .ok l) :
    Existing cfg v = Existing cfg w := by
  refine existing_congr h.locate fun name k hn hk => ?_
  have hne : k ≠ l := fun he => ho name hn (he ▸ hk)
  rw [h.content hne]

private theorem existing_edit {e : Edit Bytes} (h : InLayout name)
    (hk : w.locate (dataPath cfg name) = .ok k) (hl : ∀ p l, v.locate p = .ok l ↔ w.locate p = .ok l)
    (hc : ∀ l, l ≠ k → v.tree.content l = w.tree.content l)
    (he : name ∈ Existing cfg v ↔ name ∈ e.apply (Existing cfg w))
    (hother : ∀ n, n ≠ name → (n ∈ e.apply (Existing cfg w) ↔ n ∈ Existing cfg w)) :
    Existing cfg v = e.apply (Existing cfg w) := by
  ext n
  by_cases hn : n = name
  · rw [hn, he]
  · rw [hother n hn]
    constructor
    · rintro ⟨hin, l, hloc, hsome⟩
      have hw := (hl _ l).mp hloc
      have hne : l ≠ k := by
        rintro rfl
        exact hn (layout_injective hin h hw hk)
      exact ⟨hin, l, hw, hc l hne ▸ hsome⟩
    · rintro ⟨hin, l, hloc, hsome⟩
      have hne : l ≠ k := by
        rintro rfl
        exact hn (layout_injective hin h hloc hk)
      exact ⟨hin, l, (hl _ l).mpr hloc, (hc l hne).symm ▸ hsome⟩

/-- A file written through a name of the layout. -/
theorem existing_stored {f : WriteFaults} (h : InLayout name) (ho : Opens f w (dataPath cfg name) k)
    (b : Bytes) : Existing cfg (stored w (dataPath cfg name) k b) =
      (Edit.add name).apply (Existing cfg w) := by
  obtain ⟨-, hk, hh⟩ := ho
  have hsame := sameLog_stored w (dataPath cfg name) k b
  refine existing_edit h hk hsame.locate (fun l hne => FileTree.content_setFile_of_ne _ _ hne) ?_ ?_
  · rw [mem_existing h ((hsame.locate _ k).mpr hk)]
    have hc : (stored w (dataPath cfg name) k b).tree.content k = some b :=
      (FileTree.content_setFile hh b k).trans (if_pos rfl)
    simp [hc, Edit.apply]
  · intro n hn
    simp [Edit.apply, hn]

/-- An unlink through a name of the layout drops it or changes nothing. -/
theorem existing_unlink (fault : Option Errno) (h : InLayout name) :
    ((unlink fault w (dataPath cfg name)).2 = none → fault = none ∧ name ∈ Existing cfg w ∧
      Existing cfg (unlink fault w (dataPath cfg name)).1 =
        (Edit.drop name).apply (Existing cfg w)) ∧
    ((unlink fault w (dataPath cfg name)).2 ≠ none →
      (name ∈ Existing cfg w → fault ≠ none) ∧
      Existing cfg (unlink fault w (dataPath cfg name)).1 = Existing cfg w) := by
  obtain ⟨rfl, k, hk, he⟩ | ⟨hr, e, he⟩ := unlink_cases fault w (dataPath cfg name)
  · have hcontent : (w.tree.removeFile k).content k = none := by
      obtain ⟨b, hb⟩ := Option.isSome_iff_exists.mp hk.2
      simp [FileTree.content, FileTree.node_removeFile (FileTree.holds_of_content hb)]
    rw [he]
    refine ⟨fun _ => ⟨rfl, (mem_existing h hk.1).mpr hk.2, ?_⟩, fun hne => absurd rfl hne⟩
    have hlocate (p : Bytes) (l : Loc) :
        World.locate { w.touch (dataPath cfg name) with tree := w.tree.removeFile k } p = .ok l ↔
          w.locate p = .ok l :=
      FileTree.locate_ok_congr (fun l => FileTree.isDir_removeFile _ _ _) w.cwd p l
    refine existing_edit h hk.1 hlocate
      (fun l hne => FileTree.content_removeFile_of_ne _ hne) ?_ ?_
    · rw [mem_existing h ((hlocate _ k).mpr hk.1)]
      simp [hcontent, Edit.apply]
    · intro n hn
      simp [Edit.apply, hn]
  · rw [he]
    refine ⟨fun h0 => absurd h0 (by simp), fun _ => ⟨fun hin hf => ?_, rfl⟩⟩
    obtain ⟨-, l, hl, hc⟩ := hin
    exact hr ⟨hf, l, hl, hc⟩

/-- An unlink of a file that is there drops it unless the call fails. -/
theorem existing_unlink_of_mem (h : name ∈ Existing cfg w) :
    Existing cfg (unlink none w (dataPath cfg name)).1 =
      (Edit.drop name).apply (Existing cfg w) := by
  obtain ⟨hdone, hfailed⟩ := @existing_unlink cfg w name none h.1
  by_cases hu : (unlink none w (dataPath cfg name)).2 = none
  · exact (hdone hu).2.2
  · exact absurd rfl ((hfailed hu).1 h)

theorem existing_of_tree (hc : v.cwd = w.cwd) (ht : v.tree = w.tree) :
    Existing cfg v = Existing cfg w := by
  simp only [Existing, World.locate, hc, ht]

end Effects

end DemoStorage.StoreLayout
