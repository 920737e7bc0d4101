import DemoStorage.DaemonStart
import DemoStorage.StoreSessions
import DemoStorage.ConditionedRuns

/-!
# The store over the lifetimes of the daemon

A process starts on what the one before it left, serves connections one behind the other, and
is gone at any time between them, or with a request that ends it. Over any number of such
lifetimes, whatever fails in their starts, the files are those of one store, whose log is what
stands behind the text that was in the file of the log at the beginning.
-/

namespace DemoStorage.StoreLifetimes
open ByteStrings LexicalPaths PosixFileTree DaemonState BinlogWriting RequestHandlers ServiceThread
open ConnectionFraming SocketTransfers RequestDecoding ReplyAgreement ContentStores StoreLayout
open SyncStateFile ConditionedRuns DelimitedStreams SessionFraming
open StoreService StoreSessions DaemonStart

/-- What a turn of the loop leaves for the next. -/
def turnBehind (w : World) : Round → World
  | .idle _ _ => w
  | .request q => match q.handled with
    | none => { w with stat := countTotal q.header.cmd w.stat }
    | some g => if g.result ≠ 0 then g.world else
        (checkAndWriteToStatFile q.env.stat
          { g.world with stat := countSuccess q.header.cmd q.env.now g.world.stat }).1

def worldBehind (w : World) (rounds : List Round) : World := rounds.foldl turnBehind w

/-- The world a turn hands on is the one it leaves. -/
theorem turnBehind_serve {cfg : Config} {env : ThreadEnv} {start body inb : Inbound}
    {header : TrackerHeader} {out out' : Outbound} {w w' : World}
    (h : (serve cfg env start body header out w).2 = some (inb, out', w')) :
    turnBehind w (.request (serve cfg env start body header out w).1) = w' := by
  simp only [serve] at h ⊢
  split at h
  · cases h
  · rename_i f hf
    simp only [turnBehind]
    split_ifs at h ⊢ with h0 h1
    cases h
    rfl

/-- A client on a connection: what it sends, how that arrives, and what its thread finds. -/
structure Client where
  requests : List SentRequest
  inbound : Inbound
  outbound : Outbound
  envs : ℕ → ThreadEnv

inductive Event where
  /-- a process starts somewhere -/
  | start (f : MainFaults) (found : MainFinds) (cwd : Loc)
  | connection (c : Client)
  /-- a reporter writes the state of the synchronisation -/
  | report (f : SyncIniFaults) (g : SyncState)
  /-- the process is gone -/
  | exit

/-- The disk, with the globals of the latest process; the store is a ghost. -/
structure Machine where
  world : World
  up : Bool
  store : Files

variable (cfg : Config)

def storePlace (name : Bytes) : Loc := lexical [] (dataPath cfg name)

def initial (tree : FileTree) : Machine :=
  ⟨.initial tree [], false, ⟨fun name => tree.content (storePlace cfg name), []⟩⟩

def rounds (m : Machine) (c : Client) : List Round :=
  storageThreadEntrance cfg c.envs c.inbound c.outbound m.world

/-- The store and the answers behind each request of a connection. -/
def answers (m : Machine) (c : Client) : List (Files × List (Answer Bytes)) :=
  m.store.session metaName [] (c.requests.map asked)

/-- The store behind the last of some steps. -/
def storeBehind (s : Files) (xs : List (Files × List (Answer Bytes))) : Files :=
  xs.getLast?.elim s Prod.fst

def step (m : Machine) : Event → Machine
  | .start f found cwd =>
    if m.up then m else
      let r := startMain cfg f found m.world.tree cwd
      { m with world := r.1.1, up := r.2 = 0 }
  | .connection c =>
    if m.up then
      let w := worldBehind m.world (rounds cfg m c)
      ⟨w, !w.killed, storeBehind m.store (answers m c)⟩
    else m
  | .report f g =>
    if m.up then { m with world := (storageWriteToSyncIniFile cfg f m.world g).1 } else m
  | .exit => { m with up := false }

/-- A start finds that the file of the log can be opened for reading, and nothing disturbs a
connection. -/
def Calmly (m : Machine) : Event → Prop
  | .start f _ _ => f.sync.fopenIndex = false
  | .connection c => m.up = true →
    Undisturbed cfg c.envs (logPlace cfg) c.requests c.inbound c.outbound m.world
  | _ => True

/-- The requests of a connection find the store all the connections before it left. -/
def ServesStore (base : Bytes) (m : Machine) : Event → Prop
  | .connection c => m.up = true →
    List.Forall₂ (fun (g : Handled) (x : Files × List (Answer Bytes)) =>
        Implements cfg (logPlace cfg) base m.world g.world x.1 ∧
          (pieces packageSize (g.outbound.sent.drop c.outbound.sent.length)).map readReply =
            messages x.2 ∧ (g.world.killed = true ↔ Answer.gone ∈ x.2))
      (handledBy (rounds cfg m c)) (answers m c)
  | _ => True

/-- The files and the log are those of the store, and a process that is up appends to the log. -/
structure Holds (base : Bytes) (m : Machine) : Prop where
  files : ∀ name, InLayout name → m.world.tree.content (storePlace cfg name) = m.store.files name
  length : ∀ name c, InLayout name → m.store.files name = some c → (c.length : ℤ) ≤ INT_MAX
  logged : ∃ rs : List LogRecord,
    m.world.tree.content (logPlace cfg) = some (base ++ rs.flatMap recordText) ∧
      rs.map (fun r => (r.op, r.filename)) = m.store.log
  up : m.up = true →
    m.world.fpBinlog = some ⟨logPlace cfg, true⟩ ∧ m.world.continueFlag = true ∧
      m.world.killed = false

section Runs
variable {cfg : Config} {base : Bytes} {m : Machine}

/-- The place of a name does not depend on the working directory. -/
theorem placeOf_eq (habs : cfg.basePath.head? = some slash) (w : World) (name : Bytes) :
    placeOf cfg w name = storePlace cfg name :=
  lexical_absolute (head_append (head_append habs _) _) w.cwd

theorem Holds.implements (h : Holds cfg base m) (habs : cfg.basePath.head? = some slash)
    (hup : m.up = true) : Implements cfg (logPlace cfg) base m.world m.world m.store where
  stream := (h.up hup).1
  cwd := rfl
  isDir _ := rfl
  running := (h.up hup).2.1
  files name hp := by rw [placeOf_eq habs, h.files name hp.layout]
  length name c hp := h.length name c hp.layout
  logged := h.logged
  rest _ _ _ := rfl

theorem turnBehind_congr (w : World) (q : Request) (g : Handled) (hq : q.handled = some g) :
    (turnBehind w (.request q)).tree = g.world.tree ∧
      (turnBehind w (.request q)).cwd = g.world.cwd ∧
      (turnBehind w (.request q)).fpBinlog = g.world.fpBinlog ∧
      (turnBehind w (.request q)).continueFlag = g.world.continueFlag := by
  simp only [turnBehind, hq]
  split_ifs
  · exact ⟨rfl, rfl, rfl, rfl⟩
  · unfold checkAndWriteToStatFile
    dsimp only
    split_ifs
    · obtain ⟨b, hb⟩ := StatisticsSessions.storageWriteToStatFile_world q.env.stat
        { g.world with
          stat := countSuccess q.header.cmd q.env.now g.world.stat
          statChangeCount := wrap32 (g.world.statChangeCount + 1) }
      rw [hb]
      exact ⟨rfl, rfl, rfl, rfl⟩
    · exact ⟨rfl, rfl, rfl, rfl⟩

/-- Behind its turns a connection leaves the store of its last answer. -/
theorem worldBehind_implements {log : Loc} {w₀ w : World} {s : Files} {rounds : List Round}
    {xs : List (Files × List (Answer Bytes))} (hw : Implements cfg log base w₀ w s)
    (h : List.Forall₂ (fun (g : Handled) (x : Files × List (Answer Bytes)) =>
      Implements cfg log base w₀ g.world x.1) (handledBy rounds) xs) :
    Implements cfg log base w₀ (worldBehind w rounds) (storeBehind s xs) := by
  induction rounds generalizing w s xs with
  | nil =>
    cases h
    exact hw
  | cons r rounds ih =>
    cases r with
    | idle start stored => exact ih hw h
    | request q =>
      cases hq : q.handled with
      | none =>
        simp only [handledBy, hq, Option.elim_none] at h
        have hturn : turnBehind w (.request q) =
            { w with stat := countTotal q.header.cmd w.stat } := by
          simp only [turnBehind, hq]
        exact ih (hturn ▸ implements_counted hw _) h
      | some g =>
        simp only [handledBy, hq, Option.elim_some] at h
        cases h with
        | @cons _ x _ xs hx hxs =>
          obtain ⟨ht, hc, hs, hr⟩ := turnBehind_congr w q g hq
          have hrest := ih (hx.congr ht hc hs hr) hxs
          have hlast : storeBehind s (x :: xs) = storeBehind x.1 xs := by
            rw [storeBehind, storeBehind, List.getLast?_cons]
            cases xs.getLast? <;> rfl
          rw [hlast]
          exact hrest

theorem placed_of_changes {w : World} {log : Loc} {r : SentRequest} (h : Usable cfg w log r)
    {name : Bytes} (hname : name ∈ changes r) : Placed cfg w log name := by
  cases r with
  | syncCopy protoCmd hcmd filename content =>
    have he : name = filename.bytes := by
      simp only [changes, asked] at hname
      split at hname <;> simpa [Request.names] using hname
    exact he ▸ h.1
  | setMetadata filename opFlag pack => cases hname
  | named protoCmd hcmd filename =>
    have he : name = filename.bytes ∨ name = metaName filename.bytes := by
      simp only [changes, asked] at hname
      split_ifs at hname
      · simpa [Request.names] using hname
      · left
        simpa [Request.names] using hname
      · cases hname
      · cases hname
    exact he.elim (fun he => he ▸ h.1) fun he => he ▸ h.2

/-- What is no placed name keeps its content through a connection, at the store too. -/
theorem files_storeBehind {w : World} {log : Loc} {s : Files}
    {rs : List SentRequest} (h : ∀ r ∈ rs, Usable cfg w log r) {name : Bytes}
    (hname : ¬ Placed cfg w log name) :
    (storeBehind s (s.session metaName [] (rs.map asked))).files name = s.files name := by
  have hnames : ∀ x ∈ rs.map asked, name ∉ x.names metaName :=
    names_asked fun r hr hmem => hname (placed_of_changes (h r hr) hmem)
  rw [storeBehind]
  cases hlast : (s.session metaName [] (rs.map asked)).getLast? with
  | none => rfl
  | some x => exact files_session hnames (List.mem_of_getLast? hlast)

/-- A connection keeps the store. -/
theorem Holds.connection (h : Holds cfg base m) (habs : cfg.basePath.head? = some slash)
    (hbase : cfg.basePath.length + 23 < MAX_PATH_SIZE) (hup : m.up = true) {c : Client}
    (hc : Undisturbed cfg c.envs (logPlace cfg) c.requests c.inbound c.outbound m.world) :
    ServesStore cfg base m (.connection c) ∧ Holds cfg base (step cfg m (.connection c)) := by
  have hnow := h.implements habs hup
  have hserves := hc.serves hnow (h.up hup).2.2
  have hbehind := worldBehind_implements hnow (hserves.imp fun _ _ hx => hx.implements)
  have hplaced {name : Bytes} (hname : InLayout name)
      (hp : ¬ Placed cfg m.world (logPlace cfg) name) :
      (worldBehind m.world (rounds cfg m c)).tree.content (storePlace cfg name) =
        m.world.tree.content (storePlace cfg name) := by
    refine hbehind.rest _ (layout_apart hbase hname).2 fun name' hp' he => hp ?_
    rw [placeOf_eq habs] at he
    exact hname.lexical_inj hp'.layout he ▸ hp'
  have hfiles (name : Bytes) (hp : ¬ Placed cfg m.world (logPlace cfg) name) :
      (storeBehind m.store (answers m c)).files name = m.store.files name :=
    files_storeBehind (fun r hr => (hc.usable r hr).1) hp
  refine ⟨fun _ => hserves.imp fun _ _ hx =>
    ⟨hx.implements, read_of_answered hx.answered, hx.killed⟩, ?_⟩
  rw [step, if_pos hup]
  constructor
  · intro name hname
    by_cases hp : Placed cfg m.world (logPlace cfg) name
    · rw [← placeOf_eq habs m.world]
      exact hbehind.files name hp
    · dsimp only
      rw [hplaced hname hp, hfiles name hp, h.files name hname]
  · intro name b hname hb
    by_cases hp : Placed cfg m.world (logPlace cfg) name
    · exact hbehind.length name b hp hb
    · dsimp only at hb
      rw [hfiles name hp] at hb
      exact h.length name b hname hb
  · exact hbehind.logged
  · exact fun hgo => ⟨hbehind.stream, hbehind.running, by simpa using hgo⟩

/-- What spares the files keeps the store, as long as the process is what it has to be. -/
theorem Holds.spared (h : Holds cfg base m) (hbase : cfg.basePath.length + 23 < MAX_PATH_SIZE)
    {w : World} {up : Bool}
    (ht : Spares (Written cfg) (· = logPlace cfg) m.world.tree w.tree)
    (hup : up = true → w.fpBinlog = some ⟨logPlace cfg, true⟩ ∧ w.continueFlag = true ∧
      w.killed = false) :
    Holds cfg base { m with world := w, up := up } where
  files name hname := by
    obtain ⟨hwritten, hlog⟩ := layout_apart hbase hname
    exact (ht.rest _ hwritten hlog).trans (h.files name hname)
  length := h.length
  logged := by
    obtain ⟨rs, hrs, hmap⟩ := h.logged
    refine ⟨rs, ?_, hmap⟩
    rw [← hrs]
    exact ht.kept _ (logPlace_not_written hbase) (by rw [hrs]; rfl)
  up := hup

/-- Each event serves the store and keeps it. -/
theorem step_holds (habs : cfg.basePath.head? = some slash)
    (hbase : cfg.basePath.length + 23 < MAX_PATH_SIZE) (m : Machine) (e : Event)
    (h : Holds cfg base m) (hc : Calmly cfg m e) :
    ServesStore cfg base m e ∧ Holds cfg base (step cfg m e) := by
  cases e with
  | start f found cwd =>
    refine ⟨trivial, ?_⟩
    rw [step]
    split_ifs with hup
    · exact h
    · refine h.spared hbase (start_spares habs f found m.world.tree cwd) fun h0 => ?_
      obtain ⟨rs, hrs, -⟩ := h.logged
      obtain ⟨hs, hr, hk, -⟩ := startMain_serves habs hbase hc hrs (of_decide_eq_true h0)
      exact ⟨hs, hr, hk⟩
  | connection c =>
    cases hup : m.up with
    | true => exact h.connection habs hbase hup (hc hup)
    | false =>
      refine ⟨fun hu => absurd (hup.symm.trans hu) (by decide), ?_⟩
      rw [step, if_neg (by simp [hup])]
      exact h
  | report f g =>
    refine ⟨trivial, ?_⟩
    rw [step]
    split_ifs with hup
    · have hprep := storageWriteToSyncIniFile_prepares (w := m.world) habs f g
      refine h.spared hbase hprep.tree fun _ => ?_
      rw [hprep.stream, hprep.running, hprep.killed]
      exact h.up hup
    · exact h
  | exit => exact ⟨trivial, h.files, h.length, h.logged, fun hu => by cases hu⟩

theorem initial_holds {tree : FileTree} (hlog : tree.content (logPlace cfg) = some base)
    (hlen : ∀ name c, InLayout name → tree.content (storePlace cfg name) = some c →
      (c.length : ℤ) ≤ INT_MAX) : Holds cfg base (initial cfg tree) where
  files _ _ := rfl
  length := hlen
  logged := ⟨[], by rw [List.flatMap_nil, List.append_nil]; exact hlog, rfl⟩
  up hup := by cases hup

/-- Over every run of starts, connections, reports and ends of processes in which nothing
disturbs a connection, whatever fails in the starts: each connection is a session of the store
that all before it left, and at the end the files and the log on the disk are the store's. -/
theorem store_survives_lifetimes (habs : cfg.basePath.head? = some slash)
    (hbase : cfg.basePath.length + 23 < MAX_PATH_SIZE) {tree : FileTree}
    (hlog : tree.content (logPlace cfg) = some base)
    (hlen : ∀ name c, InLayout name → tree.content (storePlace cfg name) = some c →
      (c.length : ℤ) ≤ INT_MAX) {es : List Event}
    (h : Meets (step cfg) (Calmly cfg) (initial cfg tree) es) :
    Meets (step cfg) (ServesStore cfg base) (initial cfg tree) es ∧
      Holds cfg base (run (step cfg) (initial cfg tree) es) :=
  ⟨h.conclude (initial_holds hlog hlen) (step_holds habs hbase),
    h.invariant (initial_holds hlog hlen) fun m e hm hc => (step_holds habs hbase m e hm hc).2⟩

end Runs

section Example

/-- The directories of a store, and a log with an index in it. -/
def readyTree : FileTree :=
  ((intactTree.makeDir [ascii "b", ascii "sync"]).makeDir [ascii "b", ascii "log"]).setFile
    (logPlace sampleConfig) (ascii "0\n")

def copier : Client := ⟨copyAndDownload, copyAndDownloadStream, ⟨[], []⟩, fun _ => calmTurn⟩

/-- A client that only downloads. -/
def downloader : Client where
  requests := copyAndDownload.drop 1
  inbound := ⟨(copyAndDownload.drop 1).flatMap (sentBytes sampleConfig), [.timeout, .chunk 7]⟩
  outbound := ⟨[], []⟩
  envs _ := calmTurn

/-- A copy, a start in which the log directory cannot be made if it has to be, and a download. -/
def copiedAndRestarted : List Event :=
  [.start {} plainFinds [], .connection copier, .report {} .initial, .exit,
    .start { mkdirLog := true } plainFinds [], .connection downloader]

/-- A world in which the log has room, both names have their places, and on a connection no wait
ends within a package and none behind a request. -/
def Fit (inb : Inbound) (n : ℤ) (w : World) : Prop :=
  (0 ≤ w.binlogFileSize ∧ w.binlogFileSize + n < SYNC_BINLOG_FILE_MAX_SIZE) ∧
    (∀ name ∈ [ascii "00/00/a", metaName (ascii "00/00/a")],
      w.locate (dataPath sampleConfig name) = .ok (placeOf sampleConfig w name) ∧
        w.tree.holds (placeOf sampleConfig w name) = true ∧
        placeOf sampleConfig w name ≠ logPlace sampleConfig) ∧
    ∀ r ∈ storageThreadEntrance sampleConfig (fun _ => calmTurn) inb ⟨[], []⟩ w,
      BetweenRequests r ∧ PeerHeard r

instance (inb : Inbound) (n : ℤ) (w : World) : Decidable (Fit inb n w) :=
  inferInstanceAs (Decidable (_ ∧ _ ∧ _))

theorem Fit.undisturbed {rs : List SentRequest} {inb : Inbound} {w : World}
    (h : Fit inb (288 * rs.length) w) (hrs : ∀ r ∈ rs, r ∈ copyAndDownload)
    (hsmooth : Smooth inb.events) (hpending : inb.pending = rs.flatMap (sentBytes sampleConfig)) :
    Undisturbed sampleConfig (fun _ => calmTurn) (logPlace sampleConfig) rs inb ⟨[], []⟩ w := by
  obtain ⟨hroom, hnames, hbetween⟩ := h
  obtain ⟨hl, hh, hlog⟩ := hnames (ascii "00/00/a") (by simp)
  obtain ⟨hl', hh', hlog'⟩ := hnames (metaName (ascii "00/00/a")) (by simp)
  exact undisturbed_of_calmTurn hroom (fun r hr => usable_copyAndDownload
    ⟨inLayout_sample, hl, hh, hlog⟩ ⟨inLayout_sample.metaName, hl', hh', hlog'⟩ r (hrs r hr))
    hsmooth hpending hbetween

theorem copiedAndRestarted_calmly : Meets (step sampleConfig) (Calmly sampleConfig)
    (initial sampleConfig readyTree) copiedAndRestarted := by
  refine ⟨rfl, fun _ => ?_, trivial, trivial, rfl, fun _ => ?_, trivial⟩
  · have hfit : Fit copier.inbound (288 * copier.requests.length)
        (step sampleConfig (initial sampleConfig readyTree) (.start {} plainFinds [])).world := by
      decide +kernel
    exact hfit.undisturbed (fun _ hr => hr) smooth_copyAndDownload rfl
  · have hfit : Fit downloader.inbound (288 * downloader.requests.length)
        (run (step sampleConfig) (initial sampleConfig readyTree)
          (copiedAndRestarted.take 5)).world := by
      decide +kernel
    refine hfit.undisturbed (fun _ hr => List.mem_of_mem_drop hr) ?_ rfl
    intro e he
    simp [downloader] at he
    rcases he with rfl | rfl <;> simp

theorem content_readyTree {l : Loc} (h : l ≠ logPlace sampleConfig) :
    readyTree.content l = none := by
  rw [readyTree, FileTree.content_setFile_of_ne _ _ h, content_makeDir, content_makeDir]
  unfold FileTree.content intactTree layeredTree
  dsimp only
  split_ifs <;> rfl

theorem store_survives_copiedAndRestarted :
    Meets (step sampleConfig) (ServesStore sampleConfig (ascii "0\n"))
        (initial sampleConfig readyTree) copiedAndRestarted ∧
      Holds sampleConfig (ascii "0\n")
        (run (step sampleConfig) (initial sampleConfig readyTree) copiedAndRestarted) := by
  refine store_survives_lifetimes (by decide) (by decide) (by decide +kernel) ?_
    copiedAndRestarted_calmly
  intro name c hname hc
  rw [storePlace, content_readyTree (layout_apart (by decide) hname).2] at hc
  cases hc

end Example

end DemoStorage.StoreLifetimes
