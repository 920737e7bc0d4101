import DemoStorage.StatisticsSessions
import DemoStorage.IniFiles
import DemoStorage.ConditionedRuns

/-!
# Counters over the lifetimes of the daemon

A process loads the statistics from their file as it starts, its sessions count, and the
file is written at the start, by the sessions and at the end. A process may be gone at any
time, and the next one finds whatever is at the place of the file by then.
-/

namespace DemoStorage.CounterLifetimes
open ByteStrings PosixFileTree DaemonState ServiceThread StatisticsSessions ThreadPools IniFiles
open ConditionedRuns

def STAT_ITEM_COUNT : ℕ := 12

/-- The statistics of the items; an item that is missing counts as 0. -/
def loadStat (items : List IniItemInfo) : FDFSStorageStat where
  totalUploadCount := iniGetIntValue (ascii "total_upload_count") items 0
  successUploadCount := iniGetIntValue (ascii "success_upload_count") items 0
  totalDownloadCount := iniGetIntValue (ascii "total_download_count") items 0
  successDownloadCount := iniGetIntValue (ascii "success_download_count") items 0
  lastSourceUpdate := iniGetIntValue (ascii "last_source_update") items 0
  lastSyncUpdate := iniGetIntValue (ascii "last_sync_update") items 0
  totalSetMetaCount := iniGetIntValue (ascii "total_set_meta_count") items 0
  successSetMetaCount := iniGetIntValue (ascii "success_set_meta_count") items 0
  totalDeleteCount := iniGetIntValue (ascii "total_delete_count") items 0
  successDeleteCount := iniGetIntValue (ascii "success_delete_count") items 0
  totalGetMetaCount := iniGetIntValue (ascii "total_get_meta_count") items 0
  successGetMetaCount := iniGetIntValue (ascii "success_get_meta_count") items 0

structure OpenStatFaults where
  ini : IniFaults := {}
  openFails : Bool := false
  errno : Errno := 0
  stat : StatFaults := {}

/-- The statistics a process starts with; `found` is the content of their file. -/
def readStat (q : IniQsort) (f : IniFaults) (found : Option Bytes) : Except Errno FDFSStorageStat :=
  match found with
  | none => .ok ⟨0, 0, 0, 0, 0, 0, 0, 0, 0, 0, 0, 0⟩
  | some text => match iniLoadItems q f text with
    | .error e => .error e
    | .ok items => if items.length < STAT_ITEM_COUNT then .error ENOENT else .ok (loadStat items)

/-- The file is opened as it is, and written at once. -/
def storageOpenStorageStat (q : IniQsort) (f : OpenStatFaults) (found : Option Bytes) (w : World) :
    World × Errno :=
  match readStat q f.ini found with
  | .error e => (w, e)
  | .ok stat =>
    let w := { w with stat := stat }
    if f.openFails then (w, errnoOr f.errno ENOENT)
    else storageWriteToStatFile f.stat { w with statFile := found.getD [] }

/-- The text of the statistics. -/
def statText (s : FDFSStorageStat) : Bytes :=
  (statItems s).flatMap fun i => i.1 ++ 61 :: (decimal i.2 ++ [10])

/-- The last four fields are ghosts: the statistics as the process loaded them, how many
requests of a kind were served in all and have failed in this process, and the statistics
that were written completely. -/
structure State where
  daemon : Option Daemon
  loaded : FDFSStorageStat
  served : Kind → ℕ
  failed : Kind → ℕ
  written : List FDFSStorageStat

inductive Action where
  /-- a process starts and finds the file of the statistics, or finds none -/
  | start (f : OpenStatFaults) (found : Option Bytes)
  | accept
  | session (i : ℕ) (f : Findings)
  /-- `storage_close_storage_stat` writes the file -/
  | close (f : StatFaults)
  /-- the process is gone -/
  | exit

def initial : State := ⟨none, ⟨0, 0, 0, 0, 0, 0, 0, 0, 0, 0, 0, 0⟩, fun _ => 0, fun _ => 0, []⟩

/-- The statistics whose text is the whole file. -/
def wroteAll (w : World) : List FDFSStorageStat :=
  if w.statFile = statText w.stat then [w.stat] else []

/-- The kind a session at this point takes up, with what it finds. -/
def takesUp (f : Findings) : Pc → Option Kind
  | .ready => f.cmd.bind kindOf
  | _ => none

/-- The kind whose request fails at this point. -/
def failsAt (f : Findings) : Pc → Option Kind
  | .handling cmd => if f.result ≠ 0 then kindOf cmd else none
  | _ => none

/-- One more of a kind. -/
def more (n : Kind → ℕ) (o : Option Kind) : Kind → ℕ := fun k => if o = some k then n k + 1 else n k

def sessionStep (s : State) (d : Daemon) (i : ℕ) (f : Findings) : State :=
  match d.sessions[i]? with
  | none => s
  | some pc =>
    let d' := d.session i f
    { s with
      daemon := some d'
      served := more s.served (takesUp f pc)
      failed := more s.failed (failsAt f pc)
      written := if pc = .saving then wroteAll d'.world ++ s.written else s.written }

def step (q : IniQsort) (s : State) : Action → State
  | .start f found => match s.daemon with
    | some _ => s
    | none =>
      let r := storageOpenStorageStat q f found (.initial .empty [])
      { s with
        daemon := if r.2 = 0 then some ⟨r.1, []⟩ else none
        loaded := r.1.stat
        failed := fun _ => 0
        written := wroteAll r.1 ++ s.written }
  | .accept => { s with daemon := s.daemon.map Daemon.accept }
  | .session i f => match s.daemon with
    | none => s
    | some d => sessionStep s d i f
  | .close f => match s.daemon with
    | none => s
    | some d =>
      let w := (storageWriteToStatFile f d.world).1
      { s with daemon := some { d with world := w }, written := wroteAll w ++ s.written }
  | .exit => { s with daemon := none }

/-- A process that starts finds no file, or one that was written completely. -/
def FullFile (s : State) : Action → Prop
  | .start _ found => ∀ text, found = some text → ∃ t ∈ s.written, text = statText t
  | _ => True

/-- A session at this point works on a request of the kind. -/
def worksOn (k : Kind) : Pc → Bool
  | .handling cmd => kindOf cmd = some k
  | .succeeded cmd => kindOf cmd = some k
  | _ => false

def inProgress (k : Kind) (d : Daemon) : ℕ := d.sessions.countP (worksOn k)

/-- What the counters of a kind owe while a process runs. -/
structure Sane (s : State) (k : Kind) (d : Daemon) : Prop where
  nonneg : 0 ≤ k.success d.world.stat
  le : k.success d.world.stat ≤ k.total d.world.stat
  growth : (k.total d.world.stat - k.success d.world.stat) -
    (k.total s.loaded - k.success s.loaded) = s.failed k + inProgress k d

section Reload

/-- The value of an `int`. -/
def IsInt (n : ℤ) : Prop := -2147483648 ≤ n ∧ n < 2147483648

def Ints (t : FDFSStorageStat) : Prop := ∀ k : Kind, IsInt (k.total t) ∧ IsInt (k.success t)

theorem isInt_wrap32 (n : ℤ) : IsInt (wrap32 n) := ⟨le_wrap32 n, wrap32_lt n⟩

def statNames : List Bytes :=
  [ascii "total_upload_count", ascii "success_upload_count", ascii "total_download_count",
    ascii "success_download_count", ascii "last_source_update", ascii "last_sync_update",
    ascii "total_set_meta_count", ascii "success_set_meta_count", ascii "total_delete_count",
    ascii "success_delete_count", ascii "total_get_meta_count", ascii "success_get_meta_count"]

theorem statNames_plain :
    ∀ n ∈ statNames, Plain n ∧ n ≠ [] ∧ n.length ≤ INI_ITEM_NAME_LEN := by
  have hall : ∀ n ∈ statNames, n.all isPlain = true ∧ n ≠ [] ∧ n.length ≤ INI_ITEM_NAME_LEN := by
    decide +kernel
  intro n hn
  obtain ⟨hplain, hne, hlen⟩ := hall n hn
  exact ⟨List.all_eq_true.mp hplain, hne, hlen⟩

theorem statNames_nodup : statNames.Nodup := by decide +kernel

theorem map_fst_statItems (t : FDFSStorageStat) : (statItems t).map Prod.fst = statNames := rfl

theorem isInt_of_mem_statItems {t : FDFSStorageStat} (ht : Ints t) {p : Bytes × ℤ}
    (hp : p ∈ statItems t) : IsInt p.2 := by
  simp only [statItems, List.mem_cons, List.not_mem_nil, or_false] at hp
  rcases hp with rfl | rfl | rfl | rfl | rfl | rfl | rfl | rfl | rfl | rfl | rfl | rfl
  · exact (ht .upload).1
  · exact (ht .upload).2
  · exact (ht .download).1
  · exact (ht .download).2
  · exact isInt_wrap32 _
  · exact isInt_wrap32 _
  · exact (ht .setMetadata).1
  · exact (ht .setMetadata).2
  · exact (ht .delete).1
  · exact (ht .delete).2
  · exact (ht .getMetadata).1
  · exact (ht .getMetadata).2

theorem statText_eq (t : FDFSStorageStat) :
    statText t = iniText ((statItems t).map fun i => (i.1, decimal i.2)) := by
  rw [statText, iniText, List.flatMap_map]

theorem plainPair_statItems {t : FDFSStorageStat} (ht : Ints t) :
    ∀ p ∈ (statItems t).map fun i => (i.1, decimal i.2), PlainPair p := by
  intro p hp
  obtain ⟨i, hi, rfl⟩ := List.mem_map.mp hp
  obtain ⟨h1, h2, h3⟩ := statNames_plain i.1
    (map_fst_statItems t ▸ List.mem_map.mpr ⟨i, hi, rfl⟩)
  obtain ⟨hl, hu⟩ := isInt_of_mem_statItems ht hi
  have hlen : (decimal i.2).length ≤ 11 := length_decimal_le hl hu
  exact ⟨h1, h2, plain_decimal i.2, h3, hlen.trans (by decide)⟩

theorem length_le_iniText (ps : List (Bytes × Bytes)) : ps.length ≤ (iniText ps).length := by
  induction ps with
  | nil => exact Nat.le_refl 0
  | cons p ps ih =>
    have hcons : iniText (p :: ps) = p.1 ++ 61 :: (p.2 ++ [10]) ++ iniText ps := rfl
    rw [hcons]
    simp only [List.length_cons, List.length_append]
    omega

/-- Each item of the text is found under its name, whatever the order of the sort. -/
theorem iniGetIntValue_statText (q : IniQsort) {t : FDFSStorageStat} (ht : Ints t) {name : Bytes}
    {v : ℤ} (hp : (name, v) ∈ statItems t) :
    iniGetIntValue name (q.sort (readItems (statText t).length (statText t))) 0 = v := by
  obtain ⟨hl, hu⟩ := isInt_of_mem_statItems ht hp
  have hnames : (((statItems t).map fun i => (i.1, decimal i.2)).map Prod.fst).Nodup := by
    rw [List.map_map]
    exact (map_fst_statItems t).symm ▸ statNames_nodup
  have hfound := iniGetStrValue_iniText q (plainPair_statItems ht) hnames (length_le_iniText _)
    (List.mem_map.mpr ⟨_, hp, rfl⟩)
  have hatoi : atoi (decimal v ++ []) = v := atoi_decimal hl hu rfl
  rw [List.append_nil] at hatoi
  rw [iniGetIntValue, statText_eq, hfound]
  exact hatoi

/-- The counters survive being written and loaded. -/
theorem loadStat_statText (q : IniQsort) {t : FDFSStorageStat} (ht : Ints t) :
    loadStat (q.sort (readItems (statText t).length (statText t))) =
      { t with
        lastSourceUpdate := wrap32 t.lastSourceUpdate
        lastSyncUpdate := wrap32 t.lastSyncUpdate } := by
  have h {name : Bytes} {v : ℤ} (hp : (name, v) ∈ statItems t) := iniGetIntValue_statText q ht hp
  rw [loadStat, FDFSStorageStat.mk.injEq]
  refine ⟨h ?_, h ?_, h ?_, h ?_, h ?_, h ?_, h ?_, h ?_, h ?_, h ?_, h ?_, h ?_⟩
  all_goals simp [statItems]

theorem iniLoadItems_ok {q : IniQsort} {f : IniFaults} {text : Bytes} {items : List IniItemInfo}
    (h : iniLoadItems q f text = .ok items) : items = q.sort (readItems text.length text) := by
  unfold iniLoadItems at h
  split at h
  · cases h
  · cases h
  · dsimp only at h
    split at h
    · split_ifs at h
      exact (Except.ok.inj h).symm
    · exact (Except.ok.inj h).symm

/-- A load of a complete file, if it succeeds, has the counters that were written. -/
theorem readStat_statText {q : IniQsort} {f : IniFaults} {t stat : FDFSStorageStat} (ht : Ints t)
    (h : readStat q f (some (statText t)) = .ok stat) (k : Kind) :
    k.total stat = k.total t ∧ k.success stat = k.success t := by
  simp only [readStat] at h
  split at h
  · cases h
  · rename_i items hi
    split_ifs at h
    obtain rfl := Except.ok.inj h
    rw [iniLoadItems_ok hi, loadStat_statText q ht]
    cases k <;> exact ⟨rfl, rfl⟩

end Reload

section Moves

/-- The kind whose success is counted at this point. -/
def succeedsAt : Pc → Option Kind
  | .succeeded cmd => kindOf cmd
  | _ => none

/-- What a move of a session does to the counters of a kind. -/
structure Counts (k : Kind) (w : World) (f : Findings) (pc : Pc) : Prop where
  total : k.total (sessionMove w f pc).1.stat =
    if takesUp f pc = some k then wrap32 (k.total w.stat + 1) else k.total w.stat
  success : k.success (sessionMove w f pc).1.stat =
    if succeedsAt pc = some k then wrap32 (k.success w.stat + 1) else k.success w.stat
  works : (if worksOn k (sessionMove w f pc).2 = true then 1 else 0) +
      (if succeedsAt pc = some k then 1 else 0) + (if failsAt f pc = some k then 1 else 0) =
    (if worksOn k pc = true then 1 else 0) + (if takesUp f pc = some k then 1 else 0)

theorem kindOf_of_not_served {cmd : Byte} (h : isServed cmd = false) : kindOf cmd = none := by
  simp only [isServed, Bool.or_eq_false_iff] at h
  simpa using h.1.1.1

/-- A move that leaves the statistics and the request alone. -/
theorem counts_quiet {k : Kind} {w : World} {f : Findings} {pc : Pc}
    (hstat : (sessionMove w f pc).1.stat = w.stat) (htakes : takesUp f pc = none)
    (hsucceeds : succeedsAt pc = none) (hfails : failsAt f pc = none)
    (hworks : worksOn k (sessionMove w f pc).2 = worksOn k pc) : Counts k w f pc := by
  constructor
  · simp [hstat, htakes]
  · simp [hstat, hsucceeds]
  · simp [htakes, hsucceeds, hfails, hworks]

theorem sessionMove_counts (k : Kind) (w : World) (f : Findings) (pc : Pc) : Counts k w f pc := by
  cases pc with
  | ready =>
    cases hcmd : f.cmd with
    | none => apply counts_quiet <;> simp [sessionMove, takesUp, succeedsAt, failsAt, worksOn, hcmd]
    | some cmd =>
      by_cases hs : isServed cmd = true
      · have hmove : sessionMove w f .ready =
            ({ w with stat := countTotal cmd w.stat }, .handling cmd) := by
          simp only [sessionMove, hcmd, hs, if_true]
        have htakes : takesUp f .ready = kindOf cmd := by simp [takesUp, hcmd]
        constructor
        · rw [hmove, htakes]
          exact total_countTotal k cmd w.stat
        · rw [hmove]
          exact success_countTotal k cmd w.stat
        · rw [hmove, htakes]
          simp [worksOn, succeedsAt, failsAt]
      · have hkind := kindOf_of_not_served (by simpa using hs)
        apply counts_quiet <;>
          simp [sessionMove, takesUp, succeedsAt, failsAt, worksOn, hcmd, hs, hkind]
  | handling cmd =>
    constructor
    · rfl
    · rfl
    · by_cases hr : f.result = 0
      · simp [sessionMove, takesUp, succeedsAt, failsAt, worksOn, hr]
      · simp [sessionMove, takesUp, succeedsAt, failsAt, worksOn, hr]
  | succeeded cmd =>
    constructor
    · exact total_countSucceeded k cmd w.stat
    · exact success_countSucceeded k cmd w.stat
    · by_cases hk : kindOf cmd = some k
      · simp [sessionMove, takesUp, succeedsAt, failsAt, worksOn, hk]
      · simp [sessionMove, takesUp, succeedsAt, failsAt, worksOn, hk]
  | counted cmd =>
    constructor
    · exact total_stampUpdate k cmd w.stat f.now
    · exact success_stampUpdate k cmd w.stat f.now
    · rfl
  | stamped =>
    apply counts_quiet
    · rfl
    · rfl
    · rfl
    · rfl
    · simp only [sessionMove]
      split_ifs <;> rfl
  | saving =>
    obtain ⟨b, hb⟩ := storageWriteToStatFile_world f.stat w
    apply counts_quiet
    · simp only [sessionMove, hb]
    · rfl
    · rfl
    · rfl
    · simp only [sessionMove]
      split_ifs <;> rfl
  | ended => apply counts_quiet <;> rfl

/-- A move of a session of the daemon. -/
theorem inProgress_session {d : Daemon} {i : ℕ} {pc : Pc} (hpc : d.sessions[i]? = some pc)
    (f : Findings) (k : Kind) :
    inProgress k (d.session i f) + (if succeedsAt pc = some k then 1 else 0) +
        (if failsAt f pc = some k then 1 else 0) =
      inProgress k d + (if takesUp f pc = some k then 1 else 0) := by
  have hmove := countP_move hpc (worksOn k) (sessionMove d.world f pc).2
  have hworks := (sessionMove_counts k d.world f pc).works
  have hsession : (d.session i f).sessions = d.sessions.set i (sessionMove d.world f pc).2 := by
    simp only [Daemon.session, hpc]
  rw [inProgress, inProgress, hsession]
  omega

end Moves

section Lifetimes

/-- The counters of a kind behind at most `n` requests. -/
structure Sound (k : Kind) (n : ℕ) (t : FDFSStorageStat) : Prop where
  nonneg : 0 ≤ k.success t
  le : k.success t ≤ k.total t
  bound : k.total t ≤ n

theorem Sound.mono {k : Kind} {n m : ℕ} {t : FDFSStorageStat} (h : Sound k n t) (hnm : n ≤ m) :
    Sound k m t := ⟨h.nonneg, h.le, h.bound.trans (by exact_mod_cast hnm)⟩

/-- What holds of the statistics in memory. -/
structure Live (k : Kind) (s : State) (d : Daemon) : Prop where
  sound : Sound k (s.served k) d.world.stat
  loaded : k.success s.loaded ≤ k.total s.loaded
  growth : (k.total d.world.stat - k.success d.world.stat) -
    (k.total s.loaded - k.success s.loaded) = s.failed k + inProgress k d

structure Inv (k : Kind) (s : State) : Prop where
  ints : ∀ d, s.daemon = some d → Ints d.world.stat
  writtenInts : ∀ t ∈ s.written, Ints t
  live : s.served k < 2147483648 → ∀ d, s.daemon = some d → Live k s d
  written : s.served k < 2147483648 → ∀ t ∈ s.written, Sound k (s.served k) t

variable {q : IniQsort} {k : Kind} {s : State}

theorem inv_initial : Inv k initial := by
  constructor
  · intro d hd
    cases hd
  · intro t ht
    cases ht
  · intro _ d hd
    cases hd
  · intro _ t ht
    cases ht

theorem eq_of_mem_wroteAll {w : World} {t : FDFSStorageStat} (h : t ∈ wroteAll w) : t = w.stat := by
  unfold wroteAll at h
  split_ifs at h
  · exact List.mem_singleton.mp h
  · cases h

theorem ints_move {w : World} (h : Ints w.stat) (f : Findings) (pc : Pc) :
    Ints (sessionMove w f pc).1.stat := by
  intro j
  obtain ⟨ht, hs, -⟩ := sessionMove_counts j w f pc
  rw [ht, hs]
  constructor
  · split_ifs
    · exact isInt_wrap32 _
    · exact (h j).1
  · split_ifs
    · exact isInt_wrap32 _
    · exact (h j).2

theorem more_apply (n : Kind → ℕ) (o : Option Kind) (k : Kind) :
    more n o k = n k + if o = some k then 1 else 0 := by
  unfold more
  split_ifs <;> rfl

/-- A move of a session, as long as the counters are far from their limit. -/
theorem Live.move {d : Daemon} (h : Live k s d) {i : ℕ} {pc : Pc} (hpc : d.sessions[i]? = some pc)
    (f : Findings) (hserved : more s.served (takesUp f pc) k < 2147483648) :
    Sound k (more s.served (takesUp f pc) k) (d.session i f).world.stat ∧
      (k.total (d.session i f).world.stat - k.success (d.session i f).world.stat) -
          (k.total s.loaded - k.success s.loaded) =
        more s.failed (failsAt f pc) k + inProgress k (d.session i f) := by
  obtain ⟨⟨hnonneg, hle, hbound⟩, hloaded, hgrowth⟩ := h
  obtain ⟨htotal, hsuccess, -⟩ := sessionMove_counts k d.world f pc
  have hworld : (d.session i f).world = (sessionMove d.world f pc).1 := by
    simp only [Daemon.session, hpc]
  have hcount := inProgress_session hpc f k
  rw [← hworld] at htotal hsuccess
  have hfirst : succeedsAt pc = some k → takesUp f pc ≠ some k := by
    cases pc <;> simp [succeedsAt, takesUp]
  simp only [more_apply] at hserved ⊢
  have htotal' : k.total (d.session i f).world.stat =
      k.total d.world.stat + ((if takesUp f pc = some k then 1 else 0 : ℕ) : ℤ) := by
    rw [htotal]
    split_ifs at hserved ⊢
    · exact wrap32_eq (by omega) (by omega)
    · simp
  have hsuccess' : k.success (d.session i f).world.stat =
      k.success d.world.stat + ((if succeedsAt pc = some k then 1 else 0 : ℕ) : ℤ) := by
    rw [hsuccess]
    by_cases hs : succeedsAt pc = some k
    · -- the request that succeeds is in progress until now
      rw [if_pos hs, if_neg (hfirst hs)] at hcount
      rw [if_neg (hfirst hs)] at hserved
      rw [if_pos hs, if_pos hs]
      exact wrap32_eq (by omega) (by omega)
    · rw [if_neg hs, if_neg hs]
      simp
  have hbalance : succeedsAt pc = some k → 0 < inProgress k d := by
    intro hs
    rw [if_pos hs, if_neg (hfirst hs)] at hcount
    omega
  refine ⟨⟨?_, ?_, ?_⟩, ?_⟩
  · omega
  · rw [htotal', hsuccess']
    by_cases hs : succeedsAt pc = some k
    · have hpos := hbalance hs
      rw [if_pos hs]
      omega
    · rw [if_neg hs]
      omega
  · omega
  · omega

theorem Inv.session (h : Inv k s) {d : Daemon} (hd : s.daemon = some d) (i : ℕ) (f : Findings) :
    Inv k (sessionStep s d i f) := by
  unfold sessionStep
  cases hpc : d.sessions[i]? with
  | none => exact h
  | some pc =>
    have hworld : (d.session i f).world = (sessionMove d.world f pc).1 := by
      simp only [Daemon.session, hpc]
    have hints : Ints (d.session i f).world.stat := hworld ▸ ints_move (h.ints d hd) f pc
    have hmono : s.served k ≤ more s.served (takesUp f pc) k := by
      rw [more_apply]
      omega
    have hwritten {t : FDFSStorageStat} (ht : t ∈ if pc = .saving then
        wroteAll (d.session i f).world ++ s.written else s.written) :
        t = (d.session i f).world.stat ∨ t ∈ s.written := by
      split_ifs at ht
      · exact (List.mem_append.mp ht).imp eq_of_mem_wroteAll id
      · exact .inr ht
    constructor
    · intro d' hd'
      cases hd'
      exact hints
    · intro t ht
      rcases hwritten ht with rfl | ht
      · exact hints
      · exact h.writtenInts t ht
    · intro hserved d' hd'
      cases hd'
      have hlive := h.live (lt_of_le_of_lt hmono hserved) d hd
      obtain ⟨hsound, hgrowth⟩ := hlive.move hpc f hserved
      exact ⟨hsound, hlive.loaded, hgrowth⟩
    · intro hserved t ht
      have hserved' := lt_of_le_of_lt hmono hserved
      rcases hwritten ht with rfl | ht
      · exact ((h.live hserved' d hd).move hpc f hserved).1
      · exact (h.written hserved' t ht).mono hmono

/-- The statistics a process starts with are all 0, or loaded. -/
theorem storageOpenStorageStat_stat (q : IniQsort) (f : OpenStatFaults) (found : Option Bytes)
    (w : World) : (storageOpenStorageStat q f found w).1.stat = w.stat ∨
      readStat q f.ini found = .ok (storageOpenStorageStat q f found w).1.stat := by
  unfold storageOpenStorageStat
  cases readStat q f.ini found with
  | error e => exact .inl rfl
  | ok stat =>
    right
    dsimp only
    split_ifs
    · rfl
    · obtain ⟨b, hb⟩ := storageWriteToStatFile_world f.stat
        { w with stat := stat, statFile := found.getD [] }
      rw [hb]

/-- What a process starts with: no counts, or counts that were written. -/
theorem start_stat {f : OpenStatFaults} {found : Option Bytes} (hfull : FullFile s (.start f found))
    (hints : ∀ t ∈ s.written, Ints t) {stat : FDFSStorageStat}
    (hstat : (storageOpenStorageStat q f found (.initial .empty [])).1.stat = stat) :
    (∀ j : Kind, j.total stat = 0 ∧ j.success stat = 0) ∨
      ∃ t ∈ s.written, ∀ j : Kind, j.total stat = j.total t ∧ j.success stat = j.success t := by
  rcases storageOpenStorageStat_stat q f found (.initial .empty []) with h | h
  · left
    rw [← hstat, h]
    intro j
    cases j <;> exact ⟨rfl, rfl⟩
  · rw [hstat] at h
    cases found with
    | none =>
      left
      intro j
      cases h
      cases j <;> exact ⟨rfl, rfl⟩
    | some text =>
      right
      obtain ⟨t, ht, rfl⟩ := hfull text rfl
      exact ⟨t, ht, readStat_statText (hints t ht) h⟩

theorem Inv.start (h : Inv k s) (hdown : s.daemon = none) {f : OpenStatFaults}
    {found : Option Bytes} (hfull : FullFile s (.start f found)) :
    Inv k (step q s (.start f found)) := by
  obtain ⟨r, hr⟩ : ∃ r, storageOpenStorageStat q f found (.initial .empty []) = r := ⟨_, rfl⟩
  have hstart := start_stat hfull h.writtenInts (congrArg (fun r => r.1.stat) hr)
  have hints : Ints r.1.stat := by
    intro j
    rcases hstart with hz | ⟨t, ht, he⟩
    · have hzero : IsInt 0 := ⟨by decide, by decide⟩
      rw [(hz j).1, (hz j).2]
      exact ⟨hzero, hzero⟩
    · rw [(he j).1, (he j).2]
      exact h.writtenInts t ht j
  have hsound (hserved : s.served k < 2147483648) : Sound k (s.served k) r.1.stat := by
    rcases hstart with hz | ⟨t, ht, he⟩
    · constructor
      · rw [(hz k).2]
      · rw [(hz k).1, (hz k).2]
      · rw [(hz k).1]
        exact Int.natCast_nonneg _
    · obtain ⟨h1, h2, h3⟩ := h.written hserved t ht
      constructor
      · rwa [(he k).2]
      · rwa [(he k).1, (he k).2]
      · rwa [(he k).1]
  simp only [step, hdown, hr]
  constructor
  · intro d hd
    dsimp only at hd
    split_ifs at hd
    cases hd
    exact hints
  · intro t ht
    rcases List.mem_append.mp ht with ht | ht
    · rw [eq_of_mem_wroteAll ht]
      exact hints
    · exact h.writtenInts t ht
  · intro hserved d hd
    dsimp only at hd
    split_ifs at hd
    cases hd
    constructor
    · exact hsound hserved
    · exact (hsound hserved).le
    · simp [inProgress]
  · intro hserved t ht
    rcases List.mem_append.mp ht with ht | ht
    · rw [eq_of_mem_wroteAll ht]
      exact hsound hserved
    · exact h.written hserved t ht

theorem Inv.close (h : Inv k s) {d : Daemon} (hd : s.daemon = some d) (f : StatFaults) :
    Inv k (step q s (.close f)) := by
  obtain ⟨b, hb⟩ := storageWriteToStatFile_world f d.world
  have hmem {t : FDFSStorageStat} (ht : t ∈ wroteAll { d.world with statFile := b } ++ s.written) :
      t = d.world.stat ∨ t ∈ s.written := by
    rcases List.mem_append.mp ht with ht | ht
    · have hstat := eq_of_mem_wroteAll ht
      exact .inl hstat
    · exact .inr ht
  simp only [step, hd, hb]
  constructor
  · intro d' hd'
    cases hd'
    exact h.ints d hd
  · intro t ht
    rcases hmem ht with rfl | ht
    · exact h.ints d hd
    · exact h.writtenInts t ht
  · intro hserved d' hd'
    cases hd'
    obtain ⟨h1, h2, h3⟩ := h.live hserved d hd
    exact ⟨h1, h2, h3⟩
  · intro hserved t ht
    rcases hmem ht with rfl | ht
    · exact (h.live hserved d hd).sound
    · exact h.written hserved t ht

/-- A new session has taken up no request. -/
theorem Inv.accept (h : Inv k s) : Inv k (step q s .accept) := by
  have hget {d : Daemon} (hd : s.daemon.map Daemon.accept = some d) :
      ∃ c, s.daemon = some c ∧ d = c.accept := by
    obtain ⟨c, hc, rfl⟩ := Option.map_eq_some_iff.mp hd
    exact ⟨c, hc, rfl⟩
  constructor
  · intro d hd
    obtain ⟨c, hc, rfl⟩ := hget hd
    exact h.ints c hc
  · exact h.writtenInts
  · intro hserved d hd
    obtain ⟨c, hc, rfl⟩ := hget hd
    obtain ⟨h1, h2, h3⟩ := h.live hserved c hc
    refine ⟨h1, h2, h3.trans ?_⟩
    simp [inProgress, Daemon.accept, worksOn, step]
  · exact h.written

theorem Inv.step (h : Inv k s) {a : Action} (hfull : FullFile s a) : Inv k (step q s a) := by
  cases a with
  | start f found =>
    cases hd : s.daemon with
    | none => exact h.start hd hfull
    | some d =>
      simp only [CounterLifetimes.step, hd]
      exact h
  | accept => exact h.accept
  | session i f =>
    cases hd : s.daemon with
    | none =>
      simp only [CounterLifetimes.step, hd]
      exact h
    | some d =>
      simp only [CounterLifetimes.step, hd]
      exact h.session hd i f
  | close f =>
    cases hd : s.daemon with
    | none =>
      simp only [CounterLifetimes.step, hd]
      exact h
    | some d => exact h.close hd f
  | exit =>
    constructor
    · intro d hd
      cases hd
    · exact h.writtenInts
    · intro _ d hd
      cases hd
    · exact h.written

/-- Over any number of processes, each of which finds its file absent or complete, the counters
of a kind stay sane as long as fewer than 2^31 requests of that kind are served. -/
theorem counters_sane (q : IniQsort) (as : List Action)
    (h : Meets (step q) FullFile initial as) (k : Kind)
    (hserved : (run (step q) initial as).served k < 2147483648) (d : Daemon)
    (hd : (run (step q) initial as).daemon = some d) : Sane (run (step q) initial as) k d := by
  have hinv : Inv k (run (step q) initial as) := h.invariant inv_initial fun _ _ hs hf => hs.step hf
  obtain ⟨h1, -, h3⟩ := hinv.live hserved d hd
  exact ⟨h1.nonneg, h1.le, h3⟩

def oneDownload : FDFSStorageStat := ⟨0, 0, 0, 0, 0, 0, 1, 1, 0, 0, 0, 0⟩

/-- A process serves one download and writes its file; the next one loads it, fails one
download and is at work on another. -/
def twoProcesses : List Action :=
  let download : Findings := { cmd := some RequestHandlers.STORAGE_PROTO_CMD_DOWNLOAD_FILE }
  [.start {} none, .accept, .session 0 download, .session 0 {}, .session 0 {}, .close {}, .exit,
    .start {} (some (statText oneDownload)), .accept, .accept, .session 0 download,
    .session 0 { result := ENOENT }, .session 1 download]

theorem twoProcesses_sane :
    ∃ d, (run (step insertionIniQsort) initial twoProcesses).daemon = some d ∧
    Sane (run (step insertionIniQsort) initial twoProcesses) .download d := by
  have hsome : (run (step insertionIniQsort) initial twoProcesses).daemon.isSome = true := by
    decide +kernel
  obtain ⟨d, hd⟩ := Option.isSome_iff_exists.mp hsome
  refine ⟨d, hd, counters_sane insertionIniQsort twoProcesses ?_ .download (by decide +kernel) d hd⟩
  refine ⟨nofun, trivial, trivial, trivial, trivial, trivial, trivial, ?_, trivial, trivial,
    trivial, trivial, trivial, trivial⟩
  intro text htext
  cases htext
  refine ⟨oneDownload, ?_, rfl⟩
  decide +kernel

end Lifetimes

end DemoStorage.CounterLifetimes
