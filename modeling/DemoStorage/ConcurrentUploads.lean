import DemoStorage.UploadCleanup
import DemoStorage.ConditionedRuns

/-!
# Uploads that run at the same time

Each call of `storage_save_file` is followed through its system calls on the one file tree:
the test for an unused name, the opening and the writing of the data file and of the metadata
file, and the removal of the data file when the metadata fails. The calls may interleave in
any way, and the test and the opening are two steps.
-/

namespace DemoStorage.ConcurrentUploads
open ByteStrings PosixFileTree MetadataRecords GeneratedNames DaemonState FileEffects
open RequestHandlers UploadExits UploadCleanup ConditionedRuns

/-- Program points of a call. `l` is the place of the data file and `k` that of the metadata
file; a stream is linked until its file is unlinked. -/
inductive Pc where
  | waiting
  | testing (attempt : ℕ)
  | opening (filename : Bytes)
  | writing (filename : Bytes) (l : Loc) (linked : Bool)
  | sorting (filename : Bytes) (l : Loc)
  | openingMeta (filename : Bytes) (l : Loc) (metaBuff : Bytes)
  | writingMeta (filename : Bytes) (l : Loc) (metaBuff : Bytes) (k : Loc) (linked : Bool)
  | unlinking (filename : Bytes) (l : Loc) (result : Errno)
  | saved (filename : Bytes) (l : Loc)
  | failed (result : Errno)
  deriving DecidableEq

/-- The last field is a ghost: the places whose file was there when the call began and has
been there since. -/
structure Call where
  pc : Pc
  request : UploadRequest
  old : Loc → Bool

structure State (ι : Type) where
  tree : FileTree
  cwd : Loc
  call : ι → Call

/-- What a step of a call finds. -/
structure Findings where
  time : ℤ := 0
  rand : ℤ := 0
  write : WriteFaults := {}
  malloc : Bool := false
  unlink : Option Errno := none

inductive Action (ι : Type) where
  | start (t : ι) (u : UploadRequest)
  | step (t : ι) (f : Findings)

def initial (ι : Type) (tree : FileTree) (cwd : Loc) : State ι :=
  ⟨tree, cwd, fun _ => ⟨.waiting, ⟨0, [], []⟩, fun _ => false⟩⟩

/-- `fopen` with mode `wb`. -/
def openFile (f : WriteFaults) (tree : FileTree) (cwd : Loc) (p : Bytes) :
    Option (Loc × FileTree) :=
  if f.fopen then none
  else match tree.openWrite cwd p true with
    | .error _ => none
    | .ok r => some r

/-- Writing from the start of a stream; what reaches a file without a name is lost. -/
def writeStream (tree : FileTree) (l : Loc) (linked : Bool) (b : Bytes) : FileTree :=
  if linked then tree.setFile l (b ++ ((tree.content l).getD []).drop b.length) else tree

/-- The stream of a call whose file is unlinked loses its name. -/
def Pc.unlinked (k : Loc) : Pc → Pc
  | .writing filename l linked => .writing filename l (linked && l != k)
  | .writingMeta filename l metaBuff j linked =>
    .writingMeta filename l metaBuff j (linked && j != k)
  | pc => pc

section System
variable {ι : Type} [DecidableEq ι]

def State.goto (s : State ι) (t : ι) (pc : Pc) : State ι :=
  { s with call := Function.update s.call t { s.call t with pc := pc } }

def State.begin (s : State ι) (t : ι) (u : UploadRequest) : State ι :=
  let call : Call := ⟨.testing 0, u, fun l => (s.tree.content l).isSome⟩
  { s with call := Function.update s.call t call }

/-- A file is unlinked. -/
def State.unlinked (s : State ι) (k : Loc) (tree : FileTree) : State ι where
  tree := tree
  cwd := s.cwd
  call := fun u => { s.call u with
    pc := (s.call u).pc.unlinked k, old := fun l => (s.call u).old l && l != k }

def callStep (cfg : Config) (s : State ι) (t : ι) (f : Findings) : State ι :=
  let u := (s.call t).request
  match (s.call t).pc with
  | .waiting => s
  | .testing i =>
    let filename := storageGenFilename cfg.base64 f.time f.rand u.content.length
    if s.tree.access s.cwd (dataFile cfg filename) then
      s.goto t (if i + 1 < 1024 then .testing (i + 1) else .failed ENOENT)
    else s.goto t (.opening filename)
  | .opening filename => match openFile f.write s.tree s.cwd (dataFile cfg filename) with
    | none => s.goto t (.failed (errnoOr f.write.errno ENOENT))
    | some (l, tree) => { s.goto t (.writing filename l true) with tree := tree }
  | .writing filename l linked =>
    let pc := if Reported f.write u.content then .failed (errnoOr f.write.errno ENOENT)
      else if u.metaBytes = 0 then .saved filename l else .sorting filename l
    { s.goto t pc with tree := writeStream s.tree l linked (reached f.write u.content) }
  | .sorting filename l =>
    let r := storageSortMetadataBuff cfg.qsort f.malloc (u.metaBuff ++ [0])
    s.goto t (if r.1 ≠ 0 then .unlinking filename l r.1
      else .openingMeta filename l (r.2.take u.metaBytes))
  | .openingMeta filename l metaBuff =>
    match openFile f.write s.tree s.cwd (metaFile cfg filename) with
    | none => s.goto t (.unlinking filename l (errnoOr f.write.errno ENOENT))
    | some (k, tree) => { s.goto t (.writingMeta filename l metaBuff k true) with tree := tree }
  | .writingMeta filename l metaBuff k linked =>
    let pc := if Reported f.write metaBuff then .unlinking filename l (errnoOr f.write.errno ENOENT)
      else .saved filename l
    { s.goto t pc with tree := writeStream s.tree k linked (reached f.write metaBuff) }
  | .unlinking filename _ r =>
    let s := s.goto t (.failed r)
    match f.unlink, s.tree.locate s.cwd (dataFile cfg filename),
        s.tree.unlink s.cwd (dataFile cfg filename) with
    | none, .ok k, .ok tree => s.unlinked k tree
    | _, _, _ => s
  | .saved _ _ => s
  | .failed _ => s

def step (cfg : Config) (s : State ι) : Action ι → State ι
  | .start t u => if (s.call t).pc = .waiting then s.begin t u else s
  | .step t f => callStep cfg s t f

/-- The path a call opens for writing next. -/
def Pc.target (cfg : Config) : Pc → Option Bytes
  | .opening filename => some (dataFile cfg filename)
  | .openingMeta filename _ _ => some (metaFile cfg filename)
  | _ => none

/-- A call that opens a file for writing finds no file there. -/
def OpensNew (cfg : Config) (s : State ι) : Action ι → Prop
  | .start _ _ => True
  | .step t f => ∀ p l tree, (s.call t).pc.target cfg = some p →
      openFile f.write s.tree s.cwd p = some (l, tree) → s.tree.content l = none

def Action.caller : Action ι → ι
  | .start t _ => t
  | .step t _ => t

/-- The step leaves the files alone that were there when its call began. -/
def Keeps (cfg : Config) (s : State ι) (a : Action ι) : Prop :=
  ∀ l, (s.call a.caller).old l = true → (step cfg s a).tree.content l = s.tree.content l

/-- Two calls that both returned 0 returned different file names. -/
def Distinct (s : State ι) : Prop :=
  ∀ t u f g l k, t ≠ u → (s.call t).pc = .saved f l → (s.call u).pc = .saved g k →
    cstr f ≠ cstr g

end System

/-! While a call uses its data file, no other call has the place, and the place is the one
its name leads to. -/

section Invariant

/-- The name and the data file of a call, from the opening on. -/
def Pc.data : Pc → Option (Bytes × Loc)
  | .writing filename l _ => some (filename, l)
  | .sorting filename l => some (filename, l)
  | .openingMeta filename l _ => some (filename, l)
  | .writingMeta filename l _ _ _ => some (filename, l)
  | .unlinking filename l _ => some (filename, l)
  | .saved filename l => some (filename, l)
  | _ => none

/-- The metadata file a call is writing. -/
def Pc.metaStream : Pc → Option Loc
  | .writingMeta _ _ _ k _ => some k
  | _ => none

@[simp] theorem Pc.data_unlinked (k : Loc) (pc : Pc) : (pc.unlinked k).data = pc.data := by
  cases pc <;> rfl

@[simp] theorem Pc.metaStream_unlinked (k : Loc) (pc : Pc) :
    (pc.unlinked k).metaStream = pc.metaStream := by
  cases pc <;> rfl

variable {ι : Type} [DecidableEq ι] {cfg : Config} {s : State ι} {t : ι}

structure Inv (cfg : Config) (s : State ι) : Prop where
  path : ∀ t f l, (s.call t).pc.data = some (f, l) →
    s.tree.locate s.cwd (dataFile cfg f) = .ok l
  held : ∀ t f l, (s.call t).pc.data = some (f, l) → (s.tree.content l).isSome
  own : ∀ t f l, (s.call t).pc.data = some (f, l) → (s.call t).old l = false
  apart : ∀ t u f g l k, t ≠ u → (s.call t).pc.data = some (f, l) →
    (s.call u).pc.data = some (g, k) → l ≠ k
  stream : ∀ t k, (s.call t).pc.metaStream = some k → (s.call t).old k = false
  old : ∀ t l, (s.call t).old l = true → (s.tree.content l).isSome

omit [DecidableEq ι] in
theorem inv_initial (tree : FileTree) (cwd : Loc) : Inv cfg (initial ι tree cwd) := by
  constructor <;> simp [initial, Pc.data, Pc.metaStream]

@[simp] theorem goto_self (pc : Pc) : (s.goto t pc).call t = { s.call t with pc := pc } := by
  simp [State.goto]

theorem goto_of_ne {u : ι} (h : u ≠ t) (pc : Pc) : (s.goto t pc).call u = s.call u := by
  simp [State.goto, h]

theorem old_goto (pc : Pc) (u : ι) : ((s.goto t pc).call u).old = (s.call u).old := by
  by_cases h : u = t
  · subst h
    simp
  · rw [goto_of_ne h]

omit [DecidableEq ι] in
/-- What is nowhere to be found is older than no call. -/
theorem Inv.not_old (h : Inv cfg s) {l : Loc} (hn : s.tree.content l = none) (u : ι) :
    (s.call u).old l = false := by
  by_contra hold
  have hsome := h.old u l (by simpa using hold)
  rw [hn] at hsome
  cases hsome

omit [DecidableEq ι] in
theorem Inv.held_ne (h : Inv cfg s) {u : ι} {f : Bytes} {l k : Loc}
    (hu : (s.call u).pc.data = some (f, l)) (hk : s.tree.content k = none) : l ≠ k := by
  rintro rfl
  have hsome := h.held u f l hu
  rw [hk] at hsome
  cases hsome

/-- A step that removes no file: the call goes on with the files it had, or with one it
opened where none was. -/
theorem Inv.grow (h : Inv cfg s) {pc : Pc} {tree : FileTree}
    (hdir : ∀ l, tree.isDir l = s.tree.isDir l)
    (hgrow : ∀ l, (s.tree.content l).isSome → (tree.content l).isSome)
    (hdata : ∀ f l, pc.data = some (f, l) → (s.call t).pc.data = some (f, l) ∨
      s.tree.locate s.cwd (dataFile cfg f) = .ok l ∧ s.tree.content l = none ∧
        (tree.content l).isSome)
    (hstream : ∀ k, pc.metaStream = some k → (s.call t).pc.metaStream = some k ∨
      s.tree.content k = none) :
    Inv cfg { s.goto t pc with tree := tree } := by
  have hcases (u : ι) (f : Bytes) (l : Loc)
      (hu : ((s.goto t pc).call u).pc.data = some (f, l)) : (s.call u).pc.data = some (f, l) ∨
        u = t ∧ s.tree.locate s.cwd (dataFile cfg f) = .ok l ∧ s.tree.content l = none ∧
          (tree.content l).isSome := by
    by_cases hut : u = t
    · subst hut
      rw [goto_self] at hu
      exact (hdata f l hu).imp id fun hn => ⟨rfl, hn⟩
    · rw [goto_of_ne hut] at hu
      exact .inl hu
  constructor
  · intro u f l hu
    refine (FileTree.locate_ok_congr hdir _ _ _).mpr ?_
    rcases hcases u f l hu with hu | ⟨-, hl, -, -⟩
    · exact h.path u f l hu
    · exact hl
  · intro u f l hu
    rcases hcases u f l hu with hu | ⟨-, -, -, hl⟩
    · exact hgrow l (h.held u f l hu)
    · exact hl
  · intro u f l hu
    show ((s.goto t pc).call u).old l = false
    rw [old_goto]
    rcases hcases u f l hu with hu | ⟨-, -, hn, -⟩
    · exact h.own u f l hu
    · exact h.not_old hn u
  · intro u v f g l k hne hu hv
    rcases hcases u f l hu with hu | ⟨hut, -, hl, -⟩
    · rcases hcases v g k hv with hv | ⟨-, -, hk, -⟩
      · exact h.apart u v f g l k hne hu hv
      · exact h.held_ne hu hk
    · rcases hcases v g k hv with hv | ⟨hvt, -, -, -⟩
      · exact (h.held_ne hv hl).symm
      · exact absurd (hut.trans hvt.symm) hne
  · intro u k hu
    show ((s.goto t pc).call u).old k = false
    rw [old_goto]
    by_cases hut : u = t
    · subst hut
      have hu' : pc.metaStream = some k := by
        have : ((s.goto u pc).call u).pc.metaStream = some k := hu
        rwa [goto_self] at this
      rcases hstream k hu' with hu | hn
      · exact h.stream u k hu
      · exact h.not_old hn u
    · have : ((s.goto t pc).call u).pc.metaStream = some k := hu
      rw [goto_of_ne hut] at this
      exact h.stream u k this
  · intro u l hu
    have hu' : ((s.goto t pc).call u).old l = true := hu
    rw [old_goto] at hu'
    exact hgrow l (h.old u l hu')

/-- The call moves on with what it had, or gives it up. -/
theorem Inv.move (h : Inv cfg s) {pc : Pc}
    (hdata : pc.data = none ∨ pc.data = (s.call t).pc.data)
    (hstream : pc.metaStream = none ∨ pc.metaStream = (s.call t).pc.metaStream) :
    Inv cfg (s.goto t pc) := by
  show Inv cfg { s.goto t pc with tree := s.tree }
  refine h.grow (fun _ => rfl) (fun _ => id) (fun f l hf => ?_) (fun k hk => ?_)
  · rcases hdata with hd | hd
    · rw [hd] at hf
      cases hf
    · exact .inl (hd ▸ hf)
  · rcases hstream with hd | hd
    · rw [hd] at hk
      cases hk
    · exact .inl (hd ▸ hk)

theorem Inv.begin (h : Inv cfg s) (u : UploadRequest) : Inv cfg (s.begin t u) := by
  have hcall (v : ι) : (s.begin t u).call v =
      if v = t then ⟨.testing 0, u, fun l => (s.tree.content l).isSome⟩ else s.call v := by
    simp only [State.begin, Function.update_apply]
  have hdata (v : ι) (x : Bytes × Loc) (hv : ((s.begin t u).call v).pc.data = some x) :
      (s.begin t u).call v = s.call v := by
    rw [hcall] at hv ⊢
    split_ifs at hv ⊢
    · cases hv
    · rfl
  constructor
  · intro v f l hv
    exact h.path v f l (hdata v _ hv ▸ hv)
  · intro v f l hv
    exact h.held v f l (hdata v _ hv ▸ hv)
  · intro v f l hv
    have hold := hdata v _ hv
    rw [hold] at hv ⊢
    exact h.own v f l hv
  · intro v w f g l k hne hv hw
    exact h.apart v w f g l k hne (hdata v _ hv ▸ hv) (hdata w _ hw ▸ hw)
  · intro v k hv
    rw [hcall] at hv ⊢
    split_ifs at hv ⊢
    · cases hv
    · exact h.stream v k hv
  · intro v l hv
    rw [hcall] at hv
    split_ifs at hv
    · exact hv
    · exact h.old v l hv

omit [DecidableEq ι] in
/-- A call removes its own data file. -/
theorem Inv.unlink (h : Inv cfg s) {k : Loc} (hdata : (s.call t).pc.data = none)
    (hk : ∀ u f l, u ≠ t → (s.call u).pc.data = some (f, l) → l ≠ k) :
    Inv cfg (s.unlinked k (s.tree.removeFile k)) := by
  have hne (u : ι) (f : Bytes) (l : Loc) (hu : (s.call u).pc.data = some (f, l)) : l ≠ k := by
    refine hk u f l ?_ hu
    rintro rfl
    rw [hdata] at hu
    cases hu
  constructor
  · intro u f l hu
    have hu' : (s.call u).pc.data = some (f, l) := by simpa [State.unlinked] using hu
    exact (FileTree.locate_ok_congr (fun j => FileTree.isDir_removeFile _ _ j) _ _ _).mpr
      (h.path u f l hu')
  · intro u f l hu
    have hu' : (s.call u).pc.data = some (f, l) := by simpa [State.unlinked] using hu
    show ((s.tree.removeFile k).content l).isSome
    rw [FileTree.content_removeFile_of_ne _ (hne u f l hu')]
    exact h.held u f l hu'
  · intro u f l hu
    have hu' : (s.call u).pc.data = some (f, l) := by simpa [State.unlinked] using hu
    simp [State.unlinked, h.own u f l hu']
  · intro u v f g l j huv hu hv
    have hu' : (s.call u).pc.data = some (f, l) := by simpa [State.unlinked] using hu
    have hv' : (s.call v).pc.data = some (g, j) := by simpa [State.unlinked] using hv
    exact h.apart u v f g l j huv hu' hv'
  · intro u j hu
    have hu' : (s.call u).pc.metaStream = some j := by simpa [State.unlinked] using hu
    simp [State.unlinked, h.stream u j hu']
  · intro u l hu
    obtain ⟨hold, hl⟩ : (s.call u).old l = true ∧ l ≠ k := by simpa [State.unlinked] using hu
    show ((s.tree.removeFile k).content l).isSome
    rw [FileTree.content_removeFile_of_ne _ hl]
    exact h.old u l hold

end Invariant

section Steps
variable {ι : Type} [DecidableEq ι] {cfg : Config} {s s' : State ι} {t : ι} {f : Findings}

/-- What a step of a call can do. -/
inductive Effect (cfg : Config) (s : State ι) (t : ι) (f : Findings) : State ι → Prop where
  | moved (pc : Pc) (hd : pc.data = none ∨ pc.data = (s.call t).pc.data)
      (hm : pc.metaStream = none ∨ pc.metaStream = (s.call t).pc.metaStream) :
      Effect cfg s t f (s.goto t pc)
  | openedData (filename : Bytes) (l : Loc) (tree : FileTree)
      (hpc : (s.call t).pc = .opening filename)
      (ho : openFile f.write s.tree s.cwd (dataFile cfg filename) = some (l, tree)) :
      Effect cfg s t f { s.goto t (.writing filename l true) with tree := tree }
  | openedMeta (filename : Bytes) (l : Loc) (metaBuff : Bytes) (k : Loc) (tree : FileTree)
      (hpc : (s.call t).pc = .openingMeta filename l metaBuff)
      (ho : openFile f.write s.tree s.cwd (metaFile cfg filename) = some (k, tree)) :
      Effect cfg s t f { s.goto t (.writingMeta filename l metaBuff k true) with tree := tree }
  | wrote (pc : Pc) (l : Loc) (linked : Bool) (b : Bytes)
      (hl : (∃ filename, (s.call t).pc.data = some (filename, l)) ∨
        (s.call t).pc.metaStream = some l)
      (hd : pc.data = none ∨ pc.data = (s.call t).pc.data) (hm : pc.metaStream = none) :
      Effect cfg s t f { s.goto t pc with tree := writeStream s.tree l linked b }
  | removed (filename : Bytes) (l : Loc) (r : Errno) (k : Loc) (tree : FileTree)
      (hpc : (s.call t).pc = .unlinking filename l r)
      (hk : s.tree.locate s.cwd (dataFile cfg filename) = .ok k)
      (hu : s.tree.unlink s.cwd (dataFile cfg filename) = .ok tree) :
      Effect cfg s t f ((s.goto t (.failed r)).unlinked k tree)

theorem goto_pc (s : State ι) (t : ι) : s.goto t (s.call t).pc = s := by
  simp [State.goto]

theorem callStep_effect (cfg : Config) (s : State ι) (t : ι) (f : Findings) :
    Effect cfg s t f (callStep cfg s t f) := by
  have hstay : Effect cfg s t f s := by
    have : Effect cfg s t f (s.goto t (s.call t).pc) := .moved _ (.inr rfl) (.inr rfl)
    rwa [goto_pc] at this
  cases hpc : (s.call t).pc with
  | waiting => simpa only [callStep, hpc] using hstay
  | testing i =>
    simp only [callStep, hpc]
    split_ifs
    · exact .moved _ (.inl rfl) (.inl rfl)
    · exact .moved _ (.inl rfl) (.inl rfl)
    · exact .moved _ (.inl rfl) (.inl rfl)
  | opening filename =>
    simp only [callStep, hpc]
    split
    · exact .moved _ (.inl rfl) (.inl rfl)
    · rename_i l tree ho
      exact .openedData filename l tree hpc ho
  | writing filename l linked =>
    simp only [callStep, hpc]
    refine .wrote _ l linked _ (.inl ⟨filename, by simp [hpc, Pc.data]⟩) ?_ ?_
    · rw [hpc]
      split_ifs
      · exact .inl rfl
      · exact .inr rfl
      · exact .inr rfl
    · split_ifs <;> rfl
  | sorting filename l =>
    simp only [callStep, hpc]
    split_ifs
    · exact .moved _ (.inr (by rw [hpc]; rfl)) (.inl rfl)
    · exact .moved _ (.inr (by rw [hpc]; rfl)) (.inl rfl)
  | openingMeta filename l metaBuff =>
    simp only [callStep, hpc]
    split
    · exact .moved _ (.inr (by rw [hpc]; rfl)) (.inl rfl)
    · rename_i k tree ho
      exact .openedMeta filename l metaBuff k tree hpc ho
  | writingMeta filename l metaBuff k linked =>
    simp only [callStep, hpc]
    refine .wrote _ k linked _ (.inr (by simp [hpc, Pc.metaStream])) ?_ ?_
    · rw [hpc]
      split_ifs <;> exact .inr rfl
    · split_ifs <;> rfl
  | unlinking filename l r =>
    simp only [callStep, hpc]
    split
    · rename_i k tree _ hk hu
      exact .removed filename l r k tree hpc hk hu
    · exact .moved _ (.inl rfl) (.inl rfl)
  | saved filename l => simpa only [callStep, hpc] using hstay
  | failed r => simpa only [callStep, hpc] using hstay

theorem openFile_some {w : WriteFaults} {tree tree' : FileTree} {cwd l : Loc} {p : Bytes}
    (h : openFile w tree cwd p = some (l, tree')) : tree.locate cwd p = .ok l ∧
      tree.holds l = true ∧ tree' = tree.setFile l [] := by
  unfold openFile at h
  split_ifs at h
  split at h
  · cases h
  · rename_i r ho
    cases h
    obtain ⟨hl, hh, he | ⟨hf, -⟩⟩ := FileTree.openWrite_ok ho
    · exact ⟨hl, hh, he⟩
    · cases hf

theorem isDir_writeStream (tree : FileTree) (l : Loc) (linked : Bool) (b : Bytes) (k : Loc) :
    (writeStream tree l linked b).isDir k = tree.isDir k := by
  unfold writeStream
  split_ifs
  · exact FileTree.isDir_setFile _ _ _ _
  · rfl

theorem isSome_content_writeStream {tree : FileTree} {l : Loc} {linked : Bool} {b : Bytes}
    {k : Loc} (hk : (tree.content k).isSome) : ((writeStream tree l linked b).content k).isSome := by
  unfold writeStream
  split_ifs
  · exact FileTree.isSome_content_setFile hk
  · exact hk

theorem content_writeStream_of_ne {tree : FileTree} {l k : Loc} (linked : Bool) (b : Bytes)
    (h : k ≠ l) : (writeStream tree l linked b).content k = tree.content k := by
  unfold writeStream
  split_ifs
  · exact FileTree.content_setFile_of_ne _ _ h
  · rfl

/-- A step that opens nothing but new files keeps the invariant. -/
theorem Inv.effect (h : Inv cfg s) (hn : OpensNew cfg s (.step t f)) (he : Effect cfg s t f s') :
    Inv cfg s' := by
  cases he with
  | moved pc hd hm => exact h.move hd hm
  | openedData filename l tree hpc ho =>
    have hnew := hn _ l tree (by rw [hpc]; rfl) ho
    obtain ⟨hl, hh, rfl⟩ := openFile_some ho
    refine h.grow (fun _ => FileTree.isDir_setFile _ _ _ _) (fun _ => FileTree.isSome_content_setFile)
      (fun g k hg => ?_) (fun k hk => by cases hk)
    cases hg
    exact .inr ⟨hl, hnew, by simp [FileTree.content_setFile hh]⟩
  | openedMeta filename l metaBuff k tree hpc ho =>
    have hnew := hn _ k tree (by rw [hpc]; rfl) ho
    obtain ⟨-, -, rfl⟩ := openFile_some ho
    refine h.grow (fun _ => FileTree.isDir_setFile _ _ _ _) (fun _ => FileTree.isSome_content_setFile)
      (fun g j hg => .inl ?_) (fun j hj => ?_)
    · rw [hpc]
      exact hg
    · cases hj
      exact .inr hnew
  | wrote pc l linked b hl hd hm =>
    refine h.grow (isDir_writeStream _ _ _ _) (fun _ => isSome_content_writeStream)
      (fun g j hg => .inl ?_) (fun j hj => ?_)
    · rcases hd with hd | hd
      · rw [hd] at hg
        cases hg
      · exact hd ▸ hg
    · rw [hm] at hj
      cases hj
  | removed filename l r k tree hpc hk hu =>
    have hdata : (s.call t).pc.data = some (filename, l) := by rw [hpc]; rfl
    obtain rfl : k = l := Except.ok.inj (hk.symm.trans (h.path t filename l hdata))
    obtain ⟨j, b, hj, -, rfl⟩ := FileTree.unlink_ok hu
    obtain rfl : j = k := Except.ok.inj (hj.symm.trans hk)
    have hmove : Inv cfg (s.goto t (.failed r)) := h.move (.inl rfl) (.inl rfl)
    refine hmove.unlink (t := t) (by simp [Pc.data]) (fun u g m hut hm => ?_)
    rw [goto_of_ne hut] at hm
    exact h.apart u t g filename m j hut hm hdata

/-- A step that opens nothing but new files leaves the older files of its call alone. -/
theorem Inv.keeps (h : Inv cfg s) (hn : OpensNew cfg s (.step t f)) (he : Effect cfg s t f s')
    {l : Loc} (hold : (s.call t).old l = true) : s'.tree.content l = s.tree.content l := by
  have hnew {k : Loc} (hk : s.tree.content k = none) : l ≠ k := by
    rintro rfl
    have := h.old t l hold
    rw [hk] at this
    cases this
  have hown {k : Loc} (hk : (s.call t).old k = false) : l ≠ k := by
    rintro rfl
    rw [hk] at hold
    cases hold
  cases he with
  | moved => rfl
  | openedData filename k tree hpc ho =>
    have hk := hn _ k tree (by rw [hpc]; rfl) ho
    obtain ⟨-, -, rfl⟩ := openFile_some ho
    exact FileTree.content_setFile_of_ne _ _ (hnew hk)
  | openedMeta filename j metaBuff k tree hpc ho =>
    have hk := hn _ k tree (by rw [hpc]; rfl) ho
    obtain ⟨-, -, rfl⟩ := openFile_some ho
    exact FileTree.content_setFile_of_ne _ _ (hnew hk)
  | wrote pc k linked b hk hd hm =>
    refine content_writeStream_of_ne _ _ (hown ?_)
    rcases hk with ⟨filename, hk⟩ | hk
    · exact h.own t filename k hk
    · exact h.stream t k hk
  | removed filename k r j tree hpc hj hu =>
    have hdata : (s.call t).pc.data = some (filename, k) := by rw [hpc]; rfl
    obtain ⟨m, b, hm, -, rfl⟩ := FileTree.unlink_ok hu
    have hmk : m = k := Except.ok.inj (hm.symm.trans (h.path t filename k hdata))
    exact FileTree.content_removeFile_of_ne _ (hmk ▸ hown (h.own t filename k hdata))

theorem Inv.step (h : Inv cfg s) {a : Action ι} (hn : OpensNew cfg s a) :
    Keeps cfg s a ∧ Inv cfg (step cfg s a) := by
  cases a with
  | start t u =>
    simp only [Keeps, ConcurrentUploads.step]
    split_ifs
    · exact ⟨fun _ _ => rfl, h.begin u⟩
    · exact ⟨fun _ _ => rfl, h⟩
  | step t f =>
    have he := callStep_effect cfg s t f
    exact ⟨fun l hold => h.keeps hn he hold, h.effect hn he⟩

omit [DecidableEq ι] in
theorem Inv.distinct (h : Inv cfg s) : Distinct s := by
  intro t u f g l k hne hf hg he
  have hf' : (s.call t).pc.data = some (f, l) := by rw [hf]; rfl
  have hg' : (s.call u).pc.data = some (g, k) := by rw [hg]; rfl
  have hl := h.path t f l hf'
  rw [dataFile, he] at hl
  exact h.apart t u f g l k hne hf' hg' (Except.ok.inj (hl.symm.trans (h.path u g k hg')))

omit [DecidableEq ι] in
/-- A call whose file is still absent when it opens it opens a new file. -/
theorem opensNew_of_access
    (h : ∀ p ∈ (s.call t).pc.target cfg, s.tree.access s.cwd p = false) :
    OpensNew cfg s (.step t f) := by
  intro p l tree hp ho
  have hx := h p hp
  obtain ⟨hl, hh, -⟩ := openFile_some ho
  by_contra hc
  have : s.tree.access s.cwd p = true := by
    obtain ⟨b, hb⟩ := Option.ne_none_iff_exists'.mp hc
    exact FileTree.access_eq_true.mpr ⟨l, hl, by simp [FileTree.content_eq_some.mp hb]⟩
  rw [hx] at this
  cases this

/-- No step of the run touches a file older than its call, and in every state reached the
file names of the calls that returned 0 are different. -/
def Unharmed (cfg : Config) (tree : FileTree) (cwd : Loc) (as : List (Action ι)) : Prop :=
  Meets (step cfg) (Keeps cfg) (initial ι tree cwd) as ∧
    ∀ bs, bs <+: as → Distinct (run (step cfg) (initial ι tree cwd) bs)

/-- Uploads that open nothing but new files are unharmed. -/
theorem uploads_unharmed (cfg : Config) (tree : FileTree) (cwd : Loc) (as : List (Action ι))
    (h : Meets (step cfg) (OpensNew cfg) (initial ι tree cwd) as) :
    Unharmed cfg tree cwd as := by
  have h0 : Inv cfg (initial ι tree cwd) := inv_initial tree cwd
  constructor
  · exact h.conclude h0 fun s a hs hn => hs.step hn
  · intro bs hbs
    exact (h.always h0 (fun s a hs hn => (hs.step hn).2) hbs).distinct

def fiveBytes : UploadRequest := ⟨0, [], [1, 2, 3, 4, 5]⟩

/-- One upload behind the other; the second draws the name of the first and then another. -/
def successiveUploads : List (Action Bool) :=
  [.start false fiveBytes, .step false {}, .step false {}, .step false {}, .start true fiveBytes,
    .step true {}, .step true { rand := 1 }, .step true {}, .step true {}]

def tableTree : FileTree :=
  tableWorld.tree.makeDir [ascii "b", ascii "data", ascii "55", ascii "52"]

theorem successiveUploads_unharmed :
    Unharmed tableConfig tableTree tableWorld.cwd successiveUploads := by
  refine uploads_unharmed tableConfig tableTree tableWorld.cwd successiveUploads ?_
  refine ⟨trivial, ?_, ?_, ?_, trivial, ?_, ?_, ?_, ?_, trivial⟩
  all_goals exact opensNew_of_access (by decide +kernel)

/-- Both calls test the one name before either opens it. -/
def racingUploads : List (Action Bool) :=
  [.start false fiveBytes, .start true fiveBytes, .step false {}, .step true {}, .step false {},
    .step true {}, .step false {}, .step true {}]

/-- Both calls return 0, with one file name. -/
theorem racingUploads_not_unharmed :
    ¬ Unharmed tableConfig tableWorld.tree tableWorld.cwd racingUploads := by
  rintro ⟨-, h⟩
  let dir : Loc := [ascii "b", ascii "data", ascii "55", ascii "51"]
  let name := ascii "55/51/AAAAAAAAAAUAAAAA"
  refine h racingUploads List.prefix_rfl false true name name (dir ++ [ascii "AAAAAAAAAAUAAAAA"])
    (dir ++ [ascii "AAAAAAAAAAUAAAAA"]) (by decide) ?_ ?_ rfl
  · decide +kernel
  · decide +kernel

end Steps

/-! A call that nobody interrupts does what `storage_save_file` does in one go. -/

section Alone
variable {ι : Type} [DecidableEq ι] {cfg : Config} {s s' : State ι} {t : ι}

/-- Result and file name of a call that is over. -/
def Pc.outcome : Pc → Option (Errno × Bytes)
  | .saved filename _ => some (0, filename)
  | .failed result => some (result, [])
  | _ => none

/-- Steps of one call lead from one state to the other. -/
def Reaches (cfg : Config) (t : ι) (s s' : State ι) : Prop :=
  ∃ as : List (Action ι), (∀ a ∈ as, a.caller = t) ∧ run (step cfg) s as = s'

theorem Reaches.refl (s : State ι) : Reaches cfg t s s := ⟨[], by simp, rfl⟩

theorem Reaches.head {s'' : State ι} {a : Action ι} (ha : a.caller = t)
    (hs : step cfg s a = s') (h : Reaches cfg t s' s'') : Reaches cfg t s s'' := by
  obtain ⟨as, has, hrun⟩ := h
  refine ⟨a :: as, ?_, ?_⟩
  · intro b hb
    rcases List.mem_cons.mp hb with rfl | hb
    · exact ha
    · exact has b hb
  · rw [run_cons, hs, hrun]

/-- The call is over, with a result, and has left a tree. -/
def Finishes (cfg : Config) (t : ι) (s : State ι) (tree : FileTree) (result : Errno)
    (filename : Bytes) : Prop :=
  ∃ s', Reaches cfg t s s' ∧ s'.tree = tree ∧ (s'.call t).pc.outcome = some (result, filename)

theorem Finishes.head {tree : FileTree} {result : Errno} {filename : Bytes} (f : Findings)
    (hs : callStep cfg s t f = s') (h : Finishes cfg t s' tree result filename) :
    Finishes cfg t s tree result filename := by
  obtain ⟨s'', hr, h⟩ := h
  exact ⟨s'', hr.head (a := .step t f) rfl hs, h⟩

theorem finishes_over {result : Errno} {filename : Bytes}
    (h : (s.call t).pc.outcome = some (result, filename)) :
    Finishes cfg t s s.tree result filename := ⟨s, .refl s, rfl, h⟩

theorem openFile_of_opens {f : WriteFaults} {w : World} {p : Bytes} {l : Loc}
    (h : Opens f w p l) : openFile f w.tree w.cwd p = some (l, w.tree.setFile l []) := by
  obtain ⟨hf, hl, hh⟩ := h
  have ho : w.tree.openWrite w.cwd p true = .ok (l, w.tree.setFile l []) :=
    FileTree.openWrite_truncate hl hh
  simp [openFile, hf, ho]

theorem openFile_of_not_opens {f : WriteFaults} {w : World} {p : Bytes}
    (h : ∀ l, ¬ Opens f w p l) : openFile f w.tree w.cwd p = none := by
  rw [Option.eq_none_iff_forall_ne_some]
  rintro ⟨l, tree⟩ ho
  have hf : f.fopen = false := by
    by_contra hf
    simp [openFile, hf] at ho
  obtain ⟨hl, hh, -⟩ := openFile_some ho
  exact h l ⟨hf, hl, hh⟩

/-- A stream that was opened and that nobody else has written to. -/
theorem writeStream_opened {tree : FileTree} {l : Loc} (h : tree.holds l = true) (b : Bytes) :
    writeStream (tree.setFile l []) l true b = tree.setFile l b := by
  simp [writeStream, FileTree.content_setFile h]

/-- The removal of the data file behind failing metadata. -/
theorem finishes_unlinking {w : World} {env : RequestEnv} {filename : Bytes} {l : Loc} {r : Errno}
    (hpc : (s.call t).pc = .unlinking filename l r) (ht : s.tree = w.tree) (hc : s.cwd = w.cwd) :
    Finishes cfg t s (unlink env.unlinkData w (dataFile cfg filename)).1.tree r [] := by
  refine Finishes.head { unlink := env.unlinkData } rfl ?_
  have hgoto : (s.goto t (.failed r)).tree = w.tree := ht
  have hcwd : (s.goto t (.failed r)).cwd = w.cwd := hc
  simp only [callStep, hpc, hgoto, hcwd, unlink]
  cases env.unlinkData with
  | some e =>
    refine ⟨_, .refl _, ht, ?_⟩
    simp [Pc.outcome]
  | none =>
    cases hu : w.tree.unlink w.cwd (dataFile cfg filename) with
    | error e =>
      cases w.tree.locate w.cwd (dataFile cfg filename) with
      | error d =>
        refine ⟨_, .refl _, ht, ?_⟩
        simp [Pc.outcome]
      | ok k =>
        refine ⟨_, .refl _, ht, ?_⟩
        simp [Pc.outcome]
    | ok tree =>
      obtain ⟨k, b, hk, -, -⟩ := FileTree.unlink_ok hu
      simp only [hk]
      refine ⟨_, .refl _, rfl, ?_⟩
      simp [State.unlinked, Pc.unlinked, Pc.outcome]

/-- The result of a call is shown with the name it returns. -/
def Ends (cfg : Config) (t : ι) (s : State ι) (filename : Bytes) (r : World × Errno) : Prop :=
  Finishes cfg t s r.1.tree r.2 (if r.2 = 0 then filename else [])

section
variable {w : World} {env : RequestEnv} {u : UploadRequest} {filename : Bytes} {l : Loc}

theorem ends_openingMeta {metaBuff : Bytes}
    (hpc : (s.call t).pc = .openingMeta filename l metaBuff) (ht : s.tree = w.tree)
    (hc : s.cwd = w.cwd) : Ends cfg t s filename
      (let x := writeToFile env.metaWrite w (metaFile cfg filename) metaBuff
       if x.2 ≠ 0 then ((unlink env.unlinkData x.1 (dataFile cfg filename)).1, x.2)
       else (x.1, 0)) := by
  by_cases ho : ∃ k, Opens env.metaWrite w (metaFile cfg filename) k
  · obtain ⟨k, ho⟩ := ho
    have hopen := openFile_of_opens ho
    have hstep : callStep cfg s t { write := env.metaWrite } =
        { s.goto t (.writingMeta filename l metaBuff k true) with
          tree := w.tree.setFile k [] } := by
      simp only [callStep, hpc, ht, hc, hopen]
    refine Finishes.head { write := env.metaWrite } hstep ?_
    have hw := writeToFile_eq_stored ho metaBuff
    refine Finishes.head { write := env.metaWrite } rfl ?_
    simp only [callStep, goto_self, writeStream_opened ho.2.2, hw]
    by_cases hs : Reported env.metaWrite metaBuff
    · simp only [hs, if_true, errnoOr_ENOENT_ne_zero, ne_eq, not_false_eq_true, if_false]
      exact finishes_unlinking (congrArg Call.pc (goto_self _)) rfl hc
    · simp only [hs, if_false, ne_eq, not_true_eq_false, if_true]
      exact finishes_over (by simp [Pc.outcome])
  · have ho' (k : Loc) : ¬ Opens env.metaWrite w (metaFile cfg filename) k := fun hk => ho ⟨k, hk⟩
    have hopen := openFile_of_not_opens ho'
    have hstep : callStep cfg s t { write := env.metaWrite } =
        s.goto t (.unlinking filename l (errnoOr env.metaWrite.errno ENOENT)) := by
      simp only [callStep, hpc, ht, hc, hopen]
    refine Finishes.head { write := env.metaWrite } hstep ?_
    rw [writeToFile_of_not_opens ho']
    simp only [errnoOr_ENOENT_ne_zero, ne_eq, not_false_eq_true, if_true, if_false]
    exact finishes_unlinking (congrArg Call.pc (goto_self _)) ht hc

theorem ends_sorting (hpc : (s.call t).pc = .sorting filename l) (ht : s.tree = w.tree)
    (hc : s.cwd = w.cwd) (hu : (s.call t).request = u) :
    Ends cfg t s filename (saveMetadata cfg env w u (dataFile cfg filename)) := by
  refine Finishes.head { malloc := env.metaMalloc } rfl ?_
  simp only [callStep, hpc, hu, saveMetadata]
  cases env.metaMalloc with
  | true =>
    have hENOMEM : ENOMEM ≠ 0 := by decide
    simp only [storageSortMetadataBuff, if_true, hENOMEM, ne_eq, not_false_eq_true, if_false]
    exact finishes_unlinking (congrArg Call.pc (goto_self _)) ht hc
  | false =>
    simp only [storageSortMetadataBuff, Bool.false_eq_true, if_false, ne_eq, not_true_eq_false]
    exact ends_openingMeta (l := l) (by simp) ht hc

theorem ends_opening (hpc : (s.call t).pc = .opening filename) (ht : s.tree = w.tree)
    (hc : s.cwd = w.cwd) (hu : (s.call t).request = u) :
    Ends cfg t s filename (saveFileAs cfg env w u (dataFile cfg filename)) := by
  by_cases ho : ∃ k, Opens env.write w (dataFile cfg filename) k
  · obtain ⟨k, ho⟩ := ho
    have hopen := openFile_of_opens ho
    have hstep : callStep cfg s t { write := env.write } =
        { s.goto t (.writing filename k true) with tree := w.tree.setFile k [] } := by
      simp only [callStep, hpc, ht, hc, hopen]
    refine Finishes.head { write := env.write } hstep ?_
    have hw := writeToFile_eq_stored ho u.content
    refine Finishes.head { write := env.write } rfl ?_
    simp only [callStep, goto_self, writeStream_opened ho.2.2, saveFileAs, hw, hu]
    by_cases hs : Reported env.write u.content
    · simp only [hs, if_true, errnoOr_ENOENT_ne_zero, ne_eq, not_false_eq_true, if_false]
      exact finishes_over (by simp [Pc.outcome])
    · simp only [hs, if_false, ne_eq, not_true_eq_false]
      by_cases hm : u.metaBytes = 0
      · simp only [hm, if_true]
        exact finishes_over (by simp [Pc.outcome])
      · simp only [hm, if_false]
        exact ends_sorting (l := k)
          (w := stored w (dataFile cfg filename) k (reached env.write u.content))
          (by simp) rfl hc (by simp [hu])
  · have ho' (k : Loc) : ¬ Opens env.write w (dataFile cfg filename) k := fun hk => ho ⟨k, hk⟩
    have hopen := openFile_of_not_opens ho'
    have hstep : callStep cfg s t { write := env.write } =
        s.goto t (.failed (errnoOr env.write.errno ENOENT)) := by
      simp only [callStep, hpc, ht, hc, hopen]
    refine Finishes.head { write := env.write } hstep ?_
    have he := writeToFile_of_not_opens ho' u.content
    simp only [saveFileAs, he, errnoOr_ENOENT_ne_zero, ne_eq, not_false_eq_true, if_true, if_false]
    have : Finishes cfg t (s.goto t (.failed (errnoOr env.write.errno ENOENT))) _
        (errnoOr env.write.errno ENOENT) [] := finishes_over (by simp [Pc.outcome])
    simpa [State.goto, ht] using this

/-- A call goes on from what the search for a name has found. -/
def Goes (cfg : Config) (env : RequestEnv) (u : UploadRequest) (t : ι) (s : State ι)
    (x : World × Option Bytes) : Prop :=
  (x.2 = none → Finishes cfg t s x.1.tree ENOENT []) ∧ ∀ filename, x.2 = some filename →
    Ends cfg t s filename (saveFileAs cfg env x.1 u (dataFile cfg filename))

theorem Goes.head {x : World × Option Bytes} (f : Findings) (hs : callStep cfg s t f = s')
    (h : Goes cfg env u t s' x) : Goes cfg env u t s x :=
  ⟨fun hx => (h.1 hx).head f hs, fun filename hx => (h.2 filename hx).head f hs⟩

theorem dataPath_cstr (cfg : Config) (name : Bytes) :
    dataPath cfg (cstr name) = dataFile cfg name := rfl

/-- An attempt with a name no file has. -/
theorem goes_unused {i : ℕ} {name : Bytes} (hpc : (s.call t).pc = .testing i)
    (ht : s.tree = w.tree) (hc : s.cwd = w.cwd) (hu : (s.call t).request = u)
    (hname : storageGenFilename cfg.base64 (env.clock i).1 (env.clock i).2 u.content.length = name)
    (hx : w.tree.access w.cwd (dataFile cfg name) = false) :
    Goes cfg env u t s (w.touch (dataFile cfg name), some name) := by
  have hstep : callStep cfg s t { time := (env.clock i).1, rand := (env.clock i).2 } =
      s.goto t (.opening name) := by
    simp only [callStep, hpc, ht, hc, hu, hname, hx, Bool.false_eq_true, if_false]
  refine Goes.head _ hstep ?_
  constructor
  · intro h
    cases h
  · intro filename h
    cases h
    exact ends_opening (by rw [goto_self]) ht hc (by rw [goto_self, hu])

/-- The attempts to find a name, with `k + 1` of them left. -/
theorem goes_testing {k i : ℕ} (hi : i + k + 1 = 1024) (hpc : (s.call t).pc = .testing i)
    (ht : s.tree = w.tree) (hc : s.cwd = w.cwd) (hu : (s.call t).request = u) :
    Goes cfg env u t s (genUnusedFilename cfg env.clock u.content.length (k + 1) i w) := by
  obtain ⟨name, hname⟩ : ∃ name, storageGenFilename cfg.base64 (env.clock i).1 (env.clock i).2
    u.content.length = name := ⟨_, rfl⟩
  induction k generalizing s i w name with
  | zero =>
    have hlast : ¬ i + 1 < 1024 := by omega
    simp only [genUnusedFilename, fileExists, hname, dataPath_cstr]
    by_cases hx : w.tree.access w.cwd (dataFile cfg name) = true
    · have hstep : callStep cfg s t { time := (env.clock i).1, rand := (env.clock i).2 } =
          s.goto t (.failed ENOENT) := by
        simp only [callStep, hpc, ht, hc, hu, hname, hx, if_true, hlast, if_false]
      rw [if_pos hx]
      refine Goes.head _ hstep ?_
      constructor
      · intro
        exact ⟨_, .refl _, ht, by simp [Pc.outcome]⟩
      · intro filename h
        cases h
    · rw [if_neg hx]
      exact goes_unused hpc ht hc hu hname (by simpa using hx)
  | succ k ih =>
    have hmore : i + 1 < 1024 := by omega
    rw [genUnusedFilename]
    simp only [fileExists, hname, dataPath_cstr]
    by_cases hx : w.tree.access w.cwd (dataFile cfg name) = true
    · have hstep : callStep cfg s t { time := (env.clock i).1, rand := (env.clock i).2 } =
          s.goto t (.testing (i + 1)) := by
        simp only [callStep, hpc, ht, hc, hu, hname, hx, if_true, hmore]
      rw [if_pos hx]
      exact Goes.head _ hstep
        (ih (by omega) (by rw [goto_self]) ht hc (by rw [goto_self, hu]) _ rfl)
    · rw [if_neg hx]
      exact goes_unused hpc ht hc hu hname (by simpa using hx)

end

/-- Uninterrupted, a call leaves the tree, the result and the file name of
`storage_save_file`. -/
theorem finishes_storageSaveFile (cfg : Config) (env : RequestEnv) (w : World) (u : UploadRequest)
    (t : ι) : Finishes cfg t (initial ι w.tree w.cwd) (storageSaveFile cfg env w u).1.tree
      (storageSaveFile cfg env w u).2.1 (storageSaveFile cfg env w u).2.2 := by
  have hbegin : step cfg (initial ι w.tree w.cwd) (.start t u) =
      (initial ι w.tree w.cwd).begin t u := by
    simp [step, initial]
  have hcall : (((initial ι w.tree w.cwd).begin t u).call t).pc = .testing 0 ∧
      (((initial ι w.tree w.cwd).begin t u).call t).request = u := by
    simp [State.begin]
  have hgoes : Goes cfg env u t ((initial ι w.tree w.cwd).begin t u)
      (genUnusedFilename cfg env.clock u.content.length 1024 0 w) :=
    goes_testing (by norm_num) hcall.1 rfl rfl hcall.2
  generalize hx : genUnusedFilename cfg env.clock u.content.length 1024 0 w = x at hgoes
  obtain ⟨v, o⟩ := x
  simp only [storageSaveFile, hx]
  cases o with
  | none =>
    obtain ⟨s', hr, hs⟩ := hgoes.1 rfl
    exact ⟨s', hr.head (a := .start t u) rfl hbegin, hs⟩
  | some filename =>
    obtain ⟨s', hr, hs⟩ := hgoes.2 filename rfl
    exact ⟨s', hr.head (a := .start t u) rfl hbegin, hs⟩

end Alone

end DemoStorage.ConcurrentUploads
