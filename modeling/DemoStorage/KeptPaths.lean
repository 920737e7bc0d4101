import DemoStorage.LogWrites

/-!
# What an unlink and a record leave of the paths

An unlink removes the file its path names and keeps every path to another place; a record that
is logged keeps them all. The two files of a name are at different places.
-/

namespace DemoStorage.KeptPaths
open ByteStrings LexicalPaths PosixFileTree DaemonState BinlogWriting BinlogOutcomes
open FileEffects LogWrites

/-- `unlink` returns 0. -/
def Unlinks (fault : Option Errno) (w : World) (p : Bytes) : Prop :=
  fault = none ∧ ∃ l, Removable w p l

/-- The path names something. -/
def Present (w : World) (p : Bytes) : Prop := w.tree.access w.cwd p = true

/-- One state has the directories of another, and the path is as it was. -/
structure Kept (p : Bytes) (w v : World) : Prop where
  cwd : v.cwd = w.cwd
  isDir : ∀ l, v.tree.isDir l = w.tree.isDir l
  node : ∀ l, w.locate p = .ok l → (v.tree.node l).isSome = (w.tree.node l).isSome

variable {fault : Option Errno} {w v u : World} {p q : Bytes} {l : Loc}

theorem present_iff : Present w p ↔ ∃ l, w.locate p = .ok l ∧ (w.tree.node l).isSome :=
  FileTree.access_eq_true

theorem isSome_content (t : FileTree) (l : Loc) :
    (t.content l).isSome = true ↔ (t.node l).isSome = true ∧ t.isDir l = false := by
  unfold FileTree.content FileTree.isDir
  cases t.node l with
  | none => simp
  | some n => cases n <;> simp

theorem Kept.locate (h : Kept p w v) (q : Bytes) (l : Loc) :
    v.locate q = .ok l ↔ w.locate q = .ok l := by
  rw [World.locate, World.locate, h.cwd]
  exact FileTree.locate_ok_congr h.isDir w.cwd q l

theorem Kept.trans (h : Kept p w v) (h' : Kept p v u) : Kept p w u :=
  ⟨h'.cwd.trans h.cwd, fun l => (h'.isDir l).trans (h.isDir l),
    fun l hl => (h'.node l ((h.locate p l).mpr hl)).trans (h.node l hl)⟩

theorem Kept.present (h : Kept p w v) : Present v p ↔ Present w p := by
  rw [present_iff, present_iff]
  refine exists_congr fun l => ?_
  rw [h.locate p l]
  exact and_congr_right fun hl => by rw [h.node l hl]

theorem Kept.unlinks (h : Kept p w v) : Unlinks fault v p ↔ Unlinks fault w p := by
  refine and_congr_right fun _ => exists_congr fun l => ?_
  rw [Removable, Removable, h.locate p l, isSome_content, isSome_content, h.isDir]
  exact and_congr_right fun hl => by rw [h.node l hl]

theorem unlink_isSome : (unlink fault w p).2.isSome = true ↔ ¬ Unlinks fault w p := by
  obtain ⟨hf, l, hl, he⟩ | ⟨h, e, he⟩ := unlink_cases fault w p
  · rw [he]
    exact iff_of_false (by simp) (not_not.mpr ⟨hf, l, hl⟩)
  · rw [he]
    exact iff_of_true rfl h

/-- What was unlinked is gone. -/
theorem unlink_gone (h : Unlinks fault w p) : ¬ Present (unlink fault w p).1 p := by
  obtain ⟨rfl, l, hl, hc⟩ := h
  obtain ⟨b, hb⟩ := Option.isSome_iff_exists.mp hc
  have hgone : (w.tree.removeFile l).node l = none := by
    rw [FileTree.node_removeFile (FileTree.holds_of_content hb), if_pos rfl]
  rw [unlink_of_removable ⟨hl, hc⟩, present_iff]
  rintro ⟨k, hk, hn⟩
  have hk' : w.locate p = .ok k :=
    (FileTree.locate_ok_congr (fun j => FileTree.isDir_removeFile _ _ j) w.cwd p k).mp hk
  obtain rfl : l = k := Except.ok.inj (hl.symm.trans hk')
  have hn' : ((w.tree.removeFile l).node l).isSome = true := hn
  rw [hgone] at hn'
  cases hn'

/-- An unlink keeps every path that names another place. -/
theorem kept_unlink (fault : Option Errno) (h : ∀ l, w.locate q = .ok l → w.locate p ≠ .ok l) :
    Kept p w (unlink fault w q).1 := by
  have ha := @unlink_apart (fun l => w.locate q = .ok l) fault w q fun _ hl => hl
  exact ⟨ha.cwd, ha.isDir, fun l hl => by rw [ha.node l fun hq => h l hq hl]⟩

/-- A failing unlink keeps every path. -/
theorem kept_unlink_of_fails (h : ¬ Unlinks fault w q) (p : Bytes) :
    Kept p w (unlink fault w q).1 := by
  obtain ⟨e, he⟩ := @unlink_of_not_removable fault w q fun hf l hl => h ⟨hf, l, hl⟩
  rw [he]
  exact ⟨rfl, fun _ => rfl, fun _ _ => rfl⟩

/-- No place comes into use by an unlink. -/
theorem unlink_node_none (fault : Option Errno) (p : Bytes) (h : w.tree.node l = none) :
    (unlink fault w p).1.tree.node l = none := by
  obtain ⟨-, k, hk, he⟩ | ⟨-, e, he⟩ := unlink_cases fault w p
  · rw [he]
    obtain rfl | hne := eq_or_ne l k
    · obtain ⟨b, hb⟩ := Option.isSome_iff_exists.mp hk.2
      rw [FileTree.content_eq_some, h] at hb
      cases hb
    · exact (FileTree.node_removeFile_of_ne _ hne).trans h
  · rw [he]
    exact h

/-- A record that is logged neither creates nor removes anything. -/
theorem isSome_node_logged (cfg : Config) {f : BinlogFaults} {op : Byte} {filename : Bytes}
    (h : Logs f w (logRecord f op filename)) (l : Loc) :
    ((storageBinlogWrite cfg f w op filename).1.tree.node l).isSome = (w.tree.node l).isSome := by
  obtain ⟨hq, ⟨k, hk⟩, hlen, hsize⟩ := h
  rw [storageBinlogWrite_quiet hq hk op filename hlen hsize]
  exact FileTree.isSome_node_appendFile _ _ _ _

/-- A record that is logged keeps every path. -/
theorem kept_logged (cfg : Config) {f : BinlogFaults} {op : Byte} {filename : Bytes}
    (h : Logs f w (logRecord f op filename)) (p : Bytes) :
    Kept p w (storageBinlogWrite cfg f w op filename).1 := by
  have hnode := isSome_node_logged cfg h
  obtain ⟨hq, ⟨k, hk⟩, hlen, hsize⟩ := h
  rw [storageBinlogWrite_quiet hq hk op filename hlen hsize] at hnode ⊢
  exact ⟨rfl, fun _ => FileTree.isDir_appendFile _ _ _ _, fun l _ => hnode l⟩

/-- The two files of a name are at different places. -/
theorem locate_meta_ne {cfg : Config} {filename : Bytes}
    (h : w.locate (dataPath cfg filename) = .ok l) :
    w.locate (dataPath cfg filename ++ STORAGE_META_FILE_EXT) ≠ .ok l := by
  intro h'
  have hpath : dataPath cfg filename ≠ [] := by simp [dataPath, cfg.basePath_ne]
  have hne := lexical_append_ne w.cwd hpath (by decide) (by decide) component_meta
  exact hne ((FileTree.locate_lexical h').symm.trans (FileTree.locate_lexical h))

end DemoStorage.KeptPaths
