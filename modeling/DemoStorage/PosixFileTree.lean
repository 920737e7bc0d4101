import DemoStorage.LexicalPaths
import Mathlib.Logic.Function.Basic

/-!
# A file tree with the POSIX path operations

A tree maps places, given as component lists from the root, to directories and regular
files. It carries two invariants: the root is a directory, and whatever lies below a place
lies below a directory. There are no symbolic links, so a path that can be walked names
the place it names lexically. Error numbers are bytes: the numbers of `errno.h` go up
to 133.
-/

namespace DemoStorage.PosixFileTree
open ByteStrings LexicalPaths

abbrev Loc := List Bytes
abbrev Errno := UInt8

def ENOENT : Errno := 2
def EBADF : Errno := 9
def ENOMEM : Errno := 12
def EACCES : Errno := 13
def EEXIST : Errno := 17
def ENOTDIR : Errno := 20
def EISDIR : Errno := 21
def EINVAL : Errno := 22
def EPIPE : Errno := 32

inductive Node where
  | dir
  | file (content : Bytes)
  deriving DecidableEq

@[ext] structure FileTree where
  node : Loc → Option Node
  root : node [] = some .dir
  parent : ∀ l c, (node (l ++ [c])).isSome → node l = some .dir

namespace FileTree

def isDir (t : FileTree) (l : Loc) : Bool := t.node l = some .dir

/-- Content of the regular file at a place. -/
def content (t : FileTree) (l : Loc) : Option Bytes :=
  match t.node l with
  | some (.file b) => some b
  | _ => none

@[simp] theorem isDir_root (t : FileTree) : t.isDir [] = true := by simp [isDir, t.root]

theorem isDir_dropLast (t : FileTree) {l : Loc} (h : (t.node l).isSome) :
    t.isDir l.dropLast = true := by
  obtain rfl | ⟨l, c, rfl⟩ := List.eq_nil_or_concat l
  · simp
  · rw [List.concat_eq_append] at h ⊢
    simpa [isDir] using t.parent l c h

theorem isDir_dropLast_of_isDir (t : FileTree) {l : Loc} (h : t.isDir l = true) :
    t.isDir l.dropLast = true := by
  apply t.isDir_dropLast
  simp only [isDir, decide_eq_true_eq] at h
  simp [h]

theorem content_eq_some {t : FileTree} {l : Loc} {b : Bytes} :
    t.content l = some b ↔ t.node l = some (.file b) := by
  unfold content
  split <;> simp_all

/-- A place that can hold a regular file: below a directory and not itself one. -/
def holds (t : FileTree) (l : Loc) : Bool := t.isDir l.dropLast && !t.isDir l

theorem holds_iff {t : FileTree} {l : Loc} :
    t.holds l = true ↔ t.isDir l.dropLast = true ∧ t.node l ≠ some .dir := by
  simp [holds, isDir]

private theorem holds_ne_nil {t : FileTree} {l : Loc} (h : t.holds l = true) : l ≠ [] := by
  rintro rfl
  simp [holds] at h

private theorem parent_update {t : FileTree} {k : Loc} {v : Option Node}
    (hk : t.isDir k = false) (hv : v.isSome → t.isDir k.dropLast = true) (l : Loc) (c : Bytes)
    (h : (Function.update t.node k v (l ++ [c])).isSome) :
    Function.update t.node k v l = some .dir := by
  simp only [isDir, decide_eq_false_iff_not, decide_eq_true_eq] at hk hv
  have hl : t.node l = some .dir := by
    by_cases he : l ++ [c] = k
    · subst he
      simpa using hv (by simpa using h)
    · exact t.parent l c (by simpa [he] using h)
  have hne : l ≠ k := fun he => hk (he ▸ hl)
  simp [hne, hl]

/-- Put a regular file at a place that can hold one. -/
def setFile (t : FileTree) (l : Loc) (b : Bytes) : FileTree :=
  if h : t.holds l = true then
    { node := Function.update t.node l (some (.file b))
      root := by simp [(holds_ne_nil h).symm, t.root]
      parent := parent_update (by simp_all [holds]) (fun _ => by simp_all [holds]) }
  else t

/-- Remove a regular file. -/
def removeFile (t : FileTree) (l : Loc) : FileTree :=
  if h : t.holds l = true then
    { node := Function.update t.node l none
      root := by simp [(holds_ne_nil h).symm, t.root]
      parent := parent_update (by simp_all [holds]) (by simp) }
  else t

/-- Make a directory at an absent place below a directory. -/
def makeDir (t : FileTree) (l : Loc) : FileTree :=
  if h : t.isDir l.dropLast = true ∧ t.node l = none then
    { node := Function.update t.node l (some .dir)
      root := by
        have : l ≠ [] := by
          rintro rfl
          simp [t.root] at h
        simp [this.symm, t.root]
      parent := parent_update (by simp [isDir, h.2]) (fun _ => h.1) }
  else t

/-- Append to the regular file at a place. -/
def appendFile (t : FileTree) (l : Loc) (b : Bytes) : FileTree :=
  match t.content l with
  | some c => t.setFile l (c ++ b)
  | none => t

/-- The tree of a fresh file system. -/
def empty : FileTree where
  node l := if l = [] then some .dir else none
  root := rfl
  parent l c h := by simp at h

@[simp] theorem isDir_setFile (t : FileTree) (l k : Loc) (b : Bytes) :
    (t.setFile l b).isDir k = t.isDir k := by
  unfold setFile
  split
  · rename_i h
    by_cases he : k = l
    · subst he
      simp [isDir, (holds_iff.mp h).2]
    · simp [isDir, he]
  · rfl

@[simp] theorem isDir_removeFile (t : FileTree) (l k : Loc) :
    (t.removeFile l).isDir k = t.isDir k := by
  unfold removeFile
  split
  · rename_i h
    by_cases he : k = l
    · subst he
      simp [isDir, (holds_iff.mp h).2]
    · simp [isDir, he]
  · rfl

@[simp] theorem isDir_appendFile (t : FileTree) (l k : Loc) (b : Bytes) :
    (t.appendFile l b).isDir k = t.isDir k := by
  unfold appendFile
  split <;> simp

theorem node_makeDir {t : FileTree} {l : Loc} (hd : t.isDir l.dropLast = true)
    (hn : t.node l = none) (k : Loc) :
    (t.makeDir l).node k = if k = l then some .dir else t.node k := by
  by_cases he : k = l
  · subst he
    simp [makeDir, hd, hn]
  · simp [makeDir, hd, hn, he]

theorem node_setFile {t : FileTree} {l : Loc} (h : t.holds l = true) (b : Bytes) (k : Loc) :
    (t.setFile l b).node k = if k = l then some (.file b) else t.node k := by
  by_cases he : k = l
  · subst he
    simp [setFile, h]
  · simp [setFile, h, he]

theorem node_setFile_of_ne (t : FileTree) {l k : Loc} (b : Bytes) (h : k ≠ l) :
    (t.setFile l b).node k = t.node k := by
  unfold setFile
  split
  · simp [h]
  · rfl

/-- Putting a file somewhere removes nothing. -/
theorem isSome_setFile {t : FileTree} {l : Loc} (b : Bytes) (k : Loc)
    (h : (t.node k).isSome) : ((t.setFile l b).node k).isSome := by
  by_cases hl : t.holds l = true
  · rw [node_setFile hl]
    split_ifs
    · rfl
    · exact h
  · rwa [setFile, dif_neg hl]

theorem node_removeFile {t : FileTree} {l : Loc} (h : t.holds l = true) (k : Loc) :
    (t.removeFile l).node k = if k = l then none else t.node k := by
  by_cases he : k = l
  · subst he
    simp [removeFile, h]
  · simp [removeFile, h, he]

theorem node_removeFile_of_ne (t : FileTree) {l k : Loc} (h : k ≠ l) :
    (t.removeFile l).node k = t.node k := by
  unfold removeFile
  split
  · simp [h]
  · rfl

theorem holds_of_content {t : FileTree} {l : Loc} {b : Bytes} (h : t.content l = some b) :
    t.holds l = true := by
  rw [content_eq_some] at h
  exact holds_iff.mpr ⟨t.isDir_dropLast (by simp [h]), by simp [h]⟩

theorem content_setFile {t : FileTree} {l : Loc} (h : t.holds l = true) (b : Bytes) (k : Loc) :
    (t.setFile l b).content k = if k = l then some b else t.content k := by
  unfold content
  rw [node_setFile h]
  by_cases hk : k = l <;> simp [hk]

theorem content_setFile_of_ne (t : FileTree) {l k : Loc} (b : Bytes) (h : k ≠ l) :
    (t.setFile l b).content k = t.content k := by
  unfold content
  rw [node_setFile_of_ne t b h]

theorem isSome_content_setFile {t : FileTree} {l : Loc} {b : Bytes} {k : Loc}
    (hk : (t.content k).isSome) : ((t.setFile l b).content k).isSome := by
  by_cases h : t.holds l = true
  · rw [content_setFile h]
    split_ifs
    · rfl
    · exact hk
  · rwa [setFile, dif_neg h]

theorem content_removeFile_of_ne (t : FileTree) {l k : Loc} (h : k ≠ l) :
    (t.removeFile l).content k = t.content k := by
  unfold content
  rw [node_removeFile_of_ne t h]

theorem content_appendFile {t : FileTree} {l : Loc} {c : Bytes} (h : t.content l = some c)
    (b : Bytes) (k : Loc) :
    (t.appendFile l b).content k = if k = l then some (c ++ b) else t.content k := by
  simp only [appendFile, h]
  exact content_setFile (holds_of_content h) _ k

theorem node_appendFile_of_ne (t : FileTree) {l k : Loc} (b : Bytes) (h : k ≠ l) :
    (t.appendFile l b).node k = t.node k := by
  unfold appendFile
  split
  · exact node_setFile_of_ne t _ h
  · rfl

/-- Appending neither creates nor removes anything. -/
theorem isSome_node_appendFile (t : FileTree) (l k : Loc) (b : Bytes) :
    ((t.appendFile l b).node k).isSome = (t.node k).isSome := by
  by_cases hk : k = l
  · subst hk
    unfold appendFile
    split
    · rename_i c hc
      rw [node_setFile (holds_of_content hc), if_pos rfl, content_eq_some.mp hc]
      rfl
    · rfl
  · rw [node_appendFile_of_ne t b hk]

@[simp] theorem holds_setFile (t : FileTree) (l k : Loc) (b : Bytes) :
    (t.setFile l b).holds k = t.holds k := by simp [holds]

@[simp] theorem holds_removeFile (t : FileTree) (l k : Loc) :
    (t.removeFile l).holds k = t.holds k := by simp [holds]

@[simp] theorem holds_appendFile (t : FileTree) (l k : Loc) (b : Bytes) :
    (t.appendFile l b).holds k = t.holds k := by simp [holds]

@[simp] theorem setFile_setFile (t : FileTree) (l : Loc) (a b : Bytes) :
    (t.setFile l a).setFile l b = t.setFile l b := by
  by_cases h : t.holds l = true
  · ext1
    funext k
    rw [node_setFile (by rwa [holds_setFile]), node_setFile h, node_setFile h]
    split_ifs <;> rfl
  · simp [setFile, h]

/-- Removing a file that was put at a free place restores the tree. -/
theorem removeFile_setFile {t : FileTree} {l : Loc} (h : t.holds l = true) (hn : t.node l = none)
    (b : Bytes) : (t.setFile l b).removeFile l = t := by
  ext1
  funext k
  rw [node_removeFile (by rwa [holds_setFile]), node_setFile h]
  split_ifs with hk
  · rw [hk, hn]
  · rfl

/-! Walking a path asks every place on the way to be a directory. -/

/-- Follow components; the error is the first place that is not a directory. -/
def walk (t : FileTree) : Loc → List (Component Bytes) → Except Loc Loc
  | cur, [] => .ok cur
  | cur, c :: cs => if t.isDir cur then walk t (c.apply cur) cs else .error cur

/-- The place a path names. -/
def locate (t : FileTree) (cwd : Loc) (p : Bytes) : Except Errno Loc :=
  if p = [] then .error ENOENT
  else match t.walk (start cwd p) (components p) with
    | .ok l => .ok l
    | .error l => .error (if (t.node l).isSome then ENOTDIR else ENOENT)

theorem locate_ne_EISDIR (t : FileTree) (cwd : Loc) (p : Bytes) :
    t.locate cwd p ≠ .error EISDIR := by
  have hne : EISDIR ≠ ENOENT ∧ EISDIR ≠ ENOTDIR := by decide
  intro h
  unfold locate at h
  split at h
  · exact hne.1 (Except.error.inj h).symm
  · split at h
    · cases h
    · split_ifs at h
      · exact hne.2 (Except.error.inj h).symm
      · exact hne.1 (Except.error.inj h).symm

theorem walk_congr {t t' : FileTree} (h : ∀ l, t'.isDir l = t.isDir l) (cur : Loc)
    (cs : List (Component Bytes)) : t'.walk cur cs = t.walk cur cs := by
  induction cs generalizing cur with
  | nil => rfl
  | cons c cs ih => simp [walk, h, ih]

/-- A tree with more directories walks every path the smaller one does. -/
theorem walk_mono {t t' : FileTree} (h : ∀ l, t.isDir l = true → t'.isDir l = true) {cur l : Loc}
    {cs : List (Component Bytes)} (hw : t.walk cur cs = .ok l) : t'.walk cur cs = .ok l := by
  induction cs generalizing cur with
  | nil => exact hw
  | cons c cs ih =>
    unfold walk at hw ⊢
    split at hw
    · rename_i hd
      rw [if_pos (h _ hd)]
      exact ih hw
    · cases hw

theorem walk_ok {t : FileTree} {cur l : Loc} {cs : List (Component Bytes)}
    (h : t.walk cur cs = .ok l) : l = resolveFrom cur cs := by
  induction cs generalizing cur with
  | nil => exact (Except.ok.inj h).symm
  | cons c cs ih =>
    unfold walk at h
    split at h
    · exact ih h
    · cases h

theorem walk_append (t : FileTree) (cur : Loc) (cs ds : List (Component Bytes)) :
    t.walk cur (cs ++ ds) = (t.walk cur cs).bind fun l => t.walk l ds := by
  induction cs generalizing cur with
  | nil => rfl
  | cons c cs ih =>
    simp only [List.cons_append, walk]
    split
    · exact ih _
    · rfl

private theorem isDir_dropLast_apply {t : FileTree} {cur : Loc} (h : t.isDir cur = true)
    (c : Component Bytes) : t.isDir (c.apply cur).dropLast = true := by
  cases c with
  | stay => exact t.isDir_dropLast_of_isDir h
  | up => exact t.isDir_dropLast_of_isDir (t.isDir_dropLast_of_isDir h)
  | name a => simpa [Component.apply] using h

theorem walk_parent {t : FileTree} {cur l : Loc} {cs : List (Component Bytes)}
    (hcur : t.isDir cur.dropLast = true) (h : t.walk cur cs = .ok l) :
    t.isDir l.dropLast = true := by
  induction cs generalizing cur with
  | nil => exact Except.ok.inj h ▸ hcur
  | cons c cs ih =>
    unfold walk at h
    split at h
    · rename_i hd
      exact ih (isDir_dropLast_apply hd c) h
    · cases h

/-- A path that can be walked names the place it names lexically. -/
theorem locate_lexical {t : FileTree} {cwd l : Loc} {p : Bytes} (h : t.locate cwd p = .ok l) :
    l = lexical cwd p := by
  unfold locate at h
  split at h
  · cases h
  · split at h
    · rename_i hw
      cases h
      exact walk_ok hw
    · cases h

/-- The last component of a path always stands below a directory. -/
theorem locate_parent {t : FileTree} {cwd l : Loc} {p : Bytes} (h : t.locate cwd p = .ok l) :
    t.isDir l.dropLast = true := by
  unfold locate at h
  split at h
  · cases h
  · split at h
    · rename_i hw
      cases h
      obtain ⟨c, cs, hc⟩ := List.exists_cons_of_ne_nil (components_ne_nil p)
      rw [hc, walk] at hw
      split at hw
      · rename_i hd
        exact walk_parent (isDir_dropLast_apply hd c) hw
      · cases hw
    · cases h

/-- A path with a slash at its end can only name a directory. -/
theorem isDir_of_locate_slash {t : FileTree} {cwd l : Loc} {p : Bytes}
    (h : t.locate cwd (p ++ [slash]) = .ok l) : t.isDir l = true := by
  unfold locate at h
  split at h
  · cases h
  · rw [components_append_slash p [], walk_append] at h
    split at h
    · rename_i k hw
      cases h
      cases hp : t.walk (start cwd (p ++ [slash])) (components p) with
      | error e =>
        rw [hp] at hw
        cases hw
      | ok m =>
        rw [hp] at hw
        have hs : components ([] : Bytes) = [.stay] := by decide
        simp only [Except.bind, hs, walk, Component.apply] at hw
        split at hw
        · rename_i hd
          cases hw
          exact hd
        · cases hw
    · cases h

theorem locate_mono {t t' : FileTree} (h : ∀ l, t.isDir l = true → t'.isDir l = true) {cwd l : Loc}
    {p : Bytes} (hl : t.locate cwd p = .ok l) : t'.locate cwd p = .ok l := by
  unfold locate at hl ⊢
  split at hl
  · cases hl
  · rename_i hp
    rw [if_neg hp]
    split at hl
    · rename_i hw
      cases hl
      rw [walk_mono h hw]
    · cases hl

theorem locate_ok_congr {t t' : FileTree} (h : ∀ l, t'.isDir l = t.isDir l) (cwd : Loc) (p : Bytes)
    (l : Loc) : t'.locate cwd p = .ok l ↔ t.locate cwd p = .ok l := by
  unfold locate
  split
  · simp
  · rw [walk_congr h]
    split <;> simp

/-- A single component is looked up in the working directory. -/
theorem locate_component {t : FileTree} {cwd : Loc} {c : Bytes} (hd : t.isDir cwd = true)
    (hne : c ≠ []) (hs : slash ∉ c) : t.locate cwd c = .ok ((component c).apply cwd) := by
  have hstart : start cwd c = cwd := by
    rw [start, if_neg]
    intro h
    exact hs (List.mem_of_head? h)
  simp [locate, hne, hstart, components_of_notMem hs, walk, hd]

/-! The system calls the storage daemon makes on paths. -/

/-- `access(path, F_OK) == 0`. -/
def access (t : FileTree) (cwd : Loc) (p : Bytes) : Bool :=
  match t.locate cwd p with
  | .ok l => (t.node l).isSome
  | .error _ => false

def unlink (t : FileTree) (cwd : Loc) (p : Bytes) : Except Errno FileTree :=
  match t.locate cwd p with
  | .error e => .error e
  | .ok l => match t.node l with
    | some (.file _) => .ok (t.removeFile l)
    | some .dir => .error EISDIR
    | none => .error ENOENT

def mkdir (t : FileTree) (cwd : Loc) (p : Bytes) : Except Errno FileTree :=
  match t.locate cwd p with
  | .error e => .error e
  | .ok l => if (t.node l).isSome then .error EEXIST else .ok (t.makeDir l)

/-- Open for writing: creates an absent file; `truncate` empties an existing one. -/
def openWrite (t : FileTree) (cwd : Loc) (p : Bytes) (truncate : Bool) :
    Except Errno (Loc × FileTree) :=
  match t.locate cwd p with
  | .error e => .error e
  | .ok l => match t.node l with
    | some .dir => .error EISDIR
    | some (.file _) => .ok (l, if truncate then t.setFile l [] else t)
    | none => .ok (l, t.setFile l [])

/-- Open and read; a directory can be opened, and no bytes can be read from it. -/
def openRead (t : FileTree) (cwd : Loc) (p : Bytes) : Except Errno Bytes :=
  match t.locate cwd p with
  | .error e => .error e
  | .ok l => match t.node l with
    | some .dir => .error EISDIR
    | some (.file b) => .ok b
    | none => .error ENOENT

theorem openWrite_ok {t t' : FileTree} {cwd l : Loc} {p : Bytes} {trunc : Bool}
    (h : t.openWrite cwd p trunc = .ok (l, t')) :
    t.locate cwd p = .ok l ∧ t.holds l = true ∧
      (t' = t.setFile l [] ∨ (trunc = false ∧ t' = t ∧ (t.content l).isSome)) := by
  unfold openWrite at h
  split at h
  · cases h
  · rename_i k hk
    have hp := locate_parent hk
    split at h
    · cases h
    · rename_i b hb
      cases h
      refine ⟨hk, holds_iff.mpr ⟨hp, by simp [hb]⟩, ?_⟩
      cases trunc with
      | true => exact .inl rfl
      | false => exact .inr ⟨rfl, rfl, by simp [content, hb]⟩
    · rename_i hb
      cases h
      exact ⟨hk, holds_iff.mpr ⟨hp, by simp [hb]⟩, .inl rfl⟩

theorem openWrite_slash (t : FileTree) (cwd : Loc) (p : Bytes) (trunc : Bool) (r : Loc × FileTree) :
    t.openWrite cwd (p ++ [slash]) trunc ≠ .ok r := by
  intro h
  obtain ⟨hl, hh, -⟩ := openWrite_ok h
  have := isDir_of_locate_slash hl
  simp [holds, this] at hh

theorem unlink_ok {t t' : FileTree} {cwd : Loc} {p : Bytes} (h : t.unlink cwd p = .ok t') :
    ∃ l b, t.locate cwd p = .ok l ∧ t.content l = some b ∧ t' = t.removeFile l := by
  unfold unlink at h
  split at h
  · cases h
  · rename_i k hk
    split at h
    · rename_i b hb
      cases h
      exact ⟨k, b, hk, by simp [content, hb], rfl⟩
    · cases h
    · cases h

theorem openRead_ok {t : FileTree} {cwd : Loc} {p b : Bytes} (h : t.openRead cwd p = .ok b) :
    ∃ l, t.locate cwd p = .ok l ∧ t.content l = some b := by
  unfold openRead at h
  split at h
  · cases h
  · rename_i l hl
    split at h
    · cases h
    · rename_i c hc
      cases h
      exact ⟨l, hl, content_eq_some.mpr hc⟩
    · cases h

theorem openRead_of_content {t : FileTree} {cwd l : Loc} {p b : Bytes}
    (hl : t.locate cwd p = .ok l) (hc : t.content l = some b) : t.openRead cwd p = .ok b := by
  simp [openRead, hl, content_eq_some.mp hc]

theorem openWrite_of_content {t : FileTree} {cwd l : Loc} {p b : Bytes}
    (hl : t.locate cwd p = .ok l) (hc : t.content l = some b) :
    t.openWrite cwd p false = .ok (l, t) := by
  simp [openWrite, hl, content_eq_some.mp hc]

theorem openWrite_truncate {t : FileTree} {cwd l : Loc} {p : Bytes} (hl : t.locate cwd p = .ok l)
    (h : t.holds l = true) : t.openWrite cwd p true = .ok (l, t.setFile l []) := by
  have hd := (holds_iff.mp h).2
  unfold openWrite
  rw [hl]
  dsimp only
  split
  · rename_i hn
    exact absurd hn hd
  · rfl
  · rfl

theorem unlink_of_content {t : FileTree} {cwd l : Loc} {p b : Bytes}
    (hl : t.locate cwd p = .ok l) (hc : t.content l = some b) :
    t.unlink cwd p = .ok (t.removeFile l) := by
  simp [unlink, hl, content_eq_some.mp hc]

/-- What was unlinked cannot be opened for reading. -/
theorem openRead_of_unlink {t t' : FileTree} {cwd : Loc} {p : Bytes}
    (h : t.unlink cwd p = .ok t') (b : Bytes) : t'.openRead cwd p ≠ .ok b := by
  intro hr
  obtain ⟨l, c, hl, hc, rfl⟩ := unlink_ok h
  obtain ⟨k, hk, hb⟩ := openRead_ok hr
  rw [locate_ok_congr (fun l => t.isDir_removeFile _ l), hl] at hk
  cases hk
  rw [content_eq_some, node_removeFile (holds_of_content hc)] at hb
  simp at hb

theorem mkdir_ok {t t' : FileTree} {cwd : Loc} {p : Bytes} (h : t.mkdir cwd p = .ok t') :
    ∃ l, t.locate cwd p = .ok l ∧ t.isDir l.dropLast = true ∧ t.node l = none ∧
      t' = t.makeDir l := by
  unfold mkdir at h
  split at h
  · cases h
  · rename_i l hl
    split at h
    · cases h
    · rename_i hn
      cases h
      exact ⟨l, hl, locate_parent hl, by simpa using hn, rfl⟩

theorem access_eq_true {t : FileTree} {cwd : Loc} {p : Bytes} :
    t.access cwd p = true ↔ ∃ l, t.locate cwd p = .ok l ∧ (t.node l).isSome := by
  unfold access
  split <;> simp_all

end FileTree
end DemoStorage.PosixFileTree
