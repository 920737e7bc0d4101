import DemoStorage.IniValues
import DemoStorage.IniLines
import DemoStorage.PathArrays
import DemoStorage.TrackerServers

/-!
# The settings a configuration file leaves

`storage_load_from_conf_file` looks up a dozen names. A number that is missing or not positive
becomes its default, and texts are cut to their buffers. Two of the names are not those of the
configuration file, and the bind address is cut to the size of a pointer; neither is an error.
-/

namespace DemoStorage.LoadedSettings
open ByteStrings PosixFileTree DaemonState SortedSearch IniFiles IniValues IniLines PathArrays
open TrackerServers TrackerProtocol

def ECANCELED : Errno := 125
def DEFAULT_NETWORK_TIMEOUT : ℤ := 30
def FDFS_STORAGE_SERVER_DEF_PORT : ℤ := 23000
def STORAGE_BEAT_DEF_INTERVAL : ℤ := 30
def STORAGE_REPORT_DEF_INTERVAL : ℤ := 300
def STORAGE_DEF_SYNC_WAIT_MSEC : ℤ := 100
def FDFS_DEF_MAX_CONNECTONS : ℤ := 256
def FDFS_MAX_TRACKERS : ℤ := 16

/-- `sizeof(g_group_name)`, and `sizeof(bind_addr)` of a parameter, which is a pointer. -/
def sizeofGroupName : ℕ := 17
def sizeofBindAddr : ℕ := 8

/-- The globals that loading assigns, and the caller's `bind_addr`. -/
structure Settings where
  basePath : Bytes
  networkTimeout : ℤ
  serverPort : ℤ
  heartBeatInterval : ℤ
  statReportInterval : ℤ
  bindAddr : Bytes
  groupName : Bytes
  trackerServerCount : ℤ
  trackerServer : Option (List TrackerServerInfo)
  syncWaitUsec : ℤ
  maxConnections : ℤ

/-- `tolower` of the C locale, and `strcasecmp` for equality. -/
def toLower (c : Byte) : Byte := if 65 ≤ c ∧ c ≤ 90 then c + 32 else c

def strcasecmpEq (a b : Bytes) : Bool := a.map toLower = b.map toLower

def iniGetBoolValue (szName : Bytes) (items : List IniItemInfo) : Bool :=
  match iniGetStrValue szName items with
  | none => false
  | some pValue => strcasecmpEq pValue (ascii "true") || strcasecmpEq pValue (ascii "yes") ||
      strcasecmpEq pValue (ascii "on") || pValue = ascii "1"

/-- An integer setting; what is not positive becomes the default. -/
def loadPositive (szName : Bytes) (items : List IniItemInfo) (dflt : ℤ) : ℤ :=
  let value := iniGetIntValue szName items dflt
  if value ≤ 0 then dflt else value

def isAlnum (c : Byte) : Bool :=
  (97 ≤ c && c ≤ 122) || (65 ≤ c && c ≤ 90) || (48 ≤ c && c ≤ 57)

def trackerValidateGroupName (groupName : Bytes) : Errno :=
  if groupName.length = 0 then EINVAL
  else if groupName.all isAlnum then 0 else EINVAL

/-- What the environment decides: `errno` behind a failed `access`, the failure of `malloc`, the
resolver and the C library's search. -/
structure LoadEnv where
  errno : Errno := 0
  malloc : Option Errno := none
  net : Resolver
  bsearch : IniBsearch

/-- The last part: the tracker servers, the wait and the limit of connections. -/
def loadServers (env : LoadEnv) (items : List IniItemInfo) (g : Settings) : Errno × Settings :=
  let found := iniGetValues env.bsearch (ascii "tracker_server") items FDFS_MAX_TRACKERS
  let values := found.filterMap fun i => items[i]?.map IniItemInfo.value
  let g := { g with trackerServerCount := values.length }
  if g.trackerServerCount ≤ 0 then (ENOENT, g)
  else match env.malloc with
    | some e => (errnoOr e ENOMEM, { g with trackerServer := none })
    | none => match copyTrackerServers env.net values with
      -- a write behind the end of the table, which no list of values causes
      | none => (EINVAL, g)
      | some (t, result) =>
        let g := { g with trackerServerCount := t.count }
        if result ≠ 0 then (result, { g with trackerServer := none })
        else (0, { g with
          trackerServer := some t.entries
          syncWaitUsec := wrap32
            (loadPositive (ascii "sync_wait_usec") items STORAGE_DEF_SYNC_WAIT_MSEC * 1000)
          maxConnections := loadPositive (ascii "max_connections") items FDFS_DEF_MAX_CONNECTONS })

def loadGroupName (env : LoadEnv) (items : List IniItemInfo) (g : Settings) : Errno × Settings :=
  match iniGetStrValue (ascii "group_name") items with
  | none => (ENOENT, g)
  | some pGroupName =>
    if pGroupName = [] then (EINVAL, g)
    else
      let g := { g with groupName := pGroupName.take (sizeofGroupName - 1) }
      if trackerValidateGroupName g.groupName ≠ 0 then (EINVAL, g) else loadServers env items g

/-- The numbers and the bind address; `snprintf` takes the size of its pointer. -/
def loadNumbers (items : List IniItemInfo) (g : Settings) : Settings :=
  { g with
    networkTimeout := loadPositive (ascii "network_tmeout") items DEFAULT_NETWORK_TIMEOUT
    serverPort := loadPositive (ascii "port") items FDFS_STORAGE_SERVER_DEF_PORT
    heartBeatInterval := loadPositive (ascii "heart_beat_interval") items STORAGE_BEAT_DEF_INTERVAL
    statReportInterval :=
      loadPositive (ascii "stat_report_interval") items STORAGE_REPORT_DEF_INTERVAL
    bindAddr := match iniGetStrValue (ascii "bind_addr") items with
      | none => []
      | some pBindAddr => pBindAddr.take (sizeofBindAddr - 1) }

def loadSettings (env : LoadEnv) (items : List IniItemInfo) (w : World) (g : Settings) :
    Errno × Settings :=
  if iniGetBoolValue (ascii "disabled") items then (ECANCELED, g)
  else match iniGetStrValue (ascii "base_path") items with
    | none => (ENOENT, g)
    | some pBasePath =>
      let g := { g with basePath := chopPath (cutPath pBasePath) }
      match loadBasePath items env.errno w with
      | .error e => (e, g)
      | .ok _ => loadGroupName env items (loadNumbers items g)

/-- Loading a file with this content; `addr_size` is never used. -/
def storageLoadFromConfFile (q : IniQsort) (f : IniFaults) (env : LoadEnv) (text : Bytes)
    (w : World) (g : Settings) : Errno × Settings :=
  match iniLoadItems q f text with
  | .error e => (e, g)
  | .ok items => loadSettings env items w g

section Lookup
variable {items : List IniItemInfo} {szName value : Bytes}

/-- The items give a name once, with this value. -/
def Gives (items : List IniItemInfo) (szName value : Bytes) : Prop :=
  (items.filter fun item => item.name = szName).map IniItemInfo.value = [value]

theorem gives_iff_setting : Gives items szName value ↔
    (items.map setting).filter (fun p => p.1 = szName) = [(szName, value)] := by
  have hfilter : (items.map setting).filter (fun p => p.1 = szName) =
      (items.filter fun item => item.name = szName).map setting := by
    rw [List.filter_map]
    rfl
  rw [hfilter, Gives, List.map_eq_singleton_iff, List.map_eq_singleton_iff]
  refine exists_congr fun item => and_congr_right fun hitems => ?_
  have hname : item.name = szName := by
    have hmem : item ∈ items.filter fun item => item.name = szName := by
      rw [hitems]
      exact List.mem_singleton_self item
    exact of_decide_eq_true (List.mem_filter.mp hmem).2
  rw [setting, hname, Prod.mk.injEq, and_iff_right rfl]

/-- Where the lines of a file are loaded, its items give what its lines give. -/
theorem gives_iff_lines {q : IniQsort} {text : Bytes} (h : LinesLoaded q text) :
    Gives (readItems text.length text) szName value ↔
      ((lines text).filterMap lineSetting).filter (fun p => p.1 = szName) =
        [(szName, value)] := by
  obtain ⟨items, hload, hlines, -⟩ := h
  obtain rfl := Except.ok.inj hload
  have hperm := (((q.perm (readItems text.length text)).map setting).symm.trans hlines).filter
    fun p => p.1 = szName
  rw [gives_iff_setting]
  constructor
  · intro hg
    rw [hg] at hperm
    exact List.perm_singleton.mp hperm.symm
  · intro hg
    rw [hg] at hperm
    exact List.perm_singleton.mp hperm

/-- A search ends at an item of the name. -/
theorem search_name {item : IniItemInfo} (h : search IniItemInfo.name items szName = some item) :
    item ∈ items ∧ item.name = szName := by
  rw [search, searchFrom_eq_index] at h
  obtain ⟨i, hi, hitem⟩ := Option.bind_eq_some_iff.mp h
  obtain ⟨item', hitem', habove, hbelow⟩ := searchIndexFrom_found _ _ _ hi
  obtain rfl : item' = item := Option.some.inj (hitem'.symm.trans hitem)
  exact ⟨List.mem_of_getElem? hitem,
    List.le_antisymm (List.not_lt.mp habove) (List.not_lt.mp hbelow)⟩

/-- A search in sorted items finds some item of every name they have. -/
theorem search_isSome (q : IniQsort) {item : IniItemInfo} (h : item ∈ items) :
    (search IniItemInfo.name (q.sort items) item.name).isSome := by
  have hsorted : (q.sort items).Pairwise fun a b => ¬ b.name < a.name :=
    (q.sorted items).imp fun hle => List.not_lt.mpr (by simpa [compareByItemName] using hle)
  have hmem := (q.perm items).mem_iff.mpr h
  obtain ⟨i, hi⟩ := Option.isSome_iff_exists.mp (searchIndex_isSome hsorted hmem)
  obtain ⟨found, hfound, -, -⟩ := searchIndexFrom_found _ _ _ hi
  have hsearch : search IniItemInfo.name (q.sort items) item.name = some found := by
    rw [search, searchFrom_eq_index]
    exact Option.bind_eq_some_iff.mpr ⟨i, hi, hfound⟩
  rw [hsearch]
  rfl

/-- A name that the items give once is found, whatever other names repeat. -/
theorem iniGetStrValue_gives (q : IniQsort) (h : Gives items szName value) :
    iniGetStrValue szName (q.sort items) = some value := by
  obtain ⟨item, hitems, rfl⟩ := List.map_eq_singleton_iff.mp h
  have hiff (item' : IniItemInfo) : item' ∈ items ∧ item'.name = szName ↔ item' = item := by
    have hfilter : item' ∈ items.filter (fun item => item.name = szName) ↔ item' = item := by
      rw [hitems, List.mem_singleton]
    rw [← hfilter, List.mem_filter, decide_eq_true_eq]
  obtain ⟨hmem, rfl⟩ := (hiff item).mpr rfl
  obtain ⟨found, hfound⟩ := Option.isSome_iff_exists.mp (search_isSome q hmem)
  obtain ⟨hfoundMem, hfoundName⟩ := search_name hfound
  obtain rfl := (hiff found).mp ⟨(q.perm items).mem_iff.mp hfoundMem, hfoundName⟩
  rw [iniGetStrValue, List.take_of_length_le found.name_length, hfound]
  rfl

/-- A name that no item has is not found. -/
theorem iniGetStrValue_none (q : IniQsort) (h : ∀ item ∈ items, item.name ≠ szName)
    (hname : szName.length ≤ INI_ITEM_NAME_LEN) :
    iniGetStrValue szName (q.sort items) = none := by
  rw [iniGetStrValue, List.take_of_length_le hname, Option.map_eq_none_iff]
  cases hsearch : search IniItemInfo.name (q.sort items) szName with
  | none => rfl
  | some item =>
    obtain ⟨hmem, hitem⟩ := search_name hsearch
    exact absurd hitem (h item ((q.perm items).mem_iff.mp hmem))

/-- A text of decimal digits and its number. -/
def Denotes (text : Bytes) (n : ℕ) : Prop :=
  ∃ ds, ds ≠ [] ∧ (∀ d ∈ ds, d < 10) ∧ text = ds.map digitChar ∧ digitsToNat 10 ds = n

/-- The items give a name once, with a number that is positive and, scaled, an `int`. -/
def GivesNumber (items : List IniItemInfo) (szName : Bytes) (n scale : ℕ) : Prop :=
  ∃ text, Gives items szName text ∧ Denotes text n ∧ 0 < n ∧ (n * scale : ℤ) ≤ INT_MAX

theorem loadPositive_gives (q : IniQsort) {n scale : ℕ} (hscale : 0 < scale)
    (h : GivesNumber items szName n scale) (dflt : ℤ) :
    loadPositive szName (q.sort items) dflt = n := by
  obtain ⟨text, hgives, ⟨ds, hne, hds, rfl, rfl⟩, hpos, hmax⟩ := h
  have hle : (digitsToNat 10 ds : ℤ) ≤ INT_MAX := by
    refine le_trans ?_ hmax
    exact_mod_cast Nat.le_mul_of_pos_right _ hscale
  have hvalue : iniGetIntValue szName (q.sort items) dflt = digitsToNat 10 ds := by
    rw [iniGetIntValue, iniGetStrValue_gives q hgives]
    exact atoi_digits hne hds hle
  rw [loadPositive, hvalue]
  exact if_neg (by omega)

/-- A number that no item gives is its default. -/
theorem loadPositive_none (q : IniQsort) (h : ∀ item ∈ items, item.name ≠ szName)
    (hname : szName.length ≤ INI_ITEM_NAME_LEN) (dflt : ℤ) :
    loadPositive szName (q.sort items) dflt = dflt := by
  have hvalue : iniGetIntValue szName (q.sort items) dflt = dflt := by
    rw [iniGetIntValue, iniGetStrValue_none q h hname]
  rw [loadPositive, hvalue, ite_self]

end Lookup

section Loading
variable {q : IniQsort} {f : IniFaults} {env : LoadEnv} {text : Bytes} {items : List IniItemInfo}
variable {w : World} {g : Settings}

/-- The settings that come from the items when loading succeeds. -/
structure Loaded (items : List IniItemInfo) (r : Settings) : Prop where
  networkTimeout : r.networkTimeout =
    loadPositive (ascii "network_tmeout") items DEFAULT_NETWORK_TIMEOUT
  serverPort : r.serverPort = loadPositive (ascii "port") items FDFS_STORAGE_SERVER_DEF_PORT
  heartBeatInterval : r.heartBeatInterval =
    loadPositive (ascii "heart_beat_interval") items STORAGE_BEAT_DEF_INTERVAL
  statReportInterval : r.statReportInterval =
    loadPositive (ascii "stat_report_interval") items STORAGE_REPORT_DEF_INTERVAL
  bindAddr : ∀ value, iniGetStrValue (ascii "bind_addr") items = some value →
    r.bindAddr = value.take (sizeofBindAddr - 1)
  groupName : ∀ value, iniGetStrValue (ascii "group_name") items = some value →
    r.groupName = value.take (sizeofGroupName - 1)
  syncWaitUsec : r.syncWaitUsec = wrap32
    (loadPositive (ascii "sync_wait_usec") items STORAGE_DEF_SYNC_WAIT_MSEC * 1000)
  maxConnections : r.maxConnections =
    loadPositive (ascii "max_connections") items FDFS_DEF_MAX_CONNECTONS

/-- A setting with a positive default is a positive `int`. -/
theorem loadPositive_bounds (szName : Bytes) (items : List IniItemInfo) {dflt : ℤ} (hpos : 0 < dflt)
    (hint : dflt ≤ INT_MAX) : 0 < loadPositive szName items dflt ∧
      loadPositive szName items dflt ≤ INT_MAX := by
  have hvalue : iniGetIntValue szName items dflt ≤ INT_MAX := by
    unfold iniGetIntValue
    split
    · exact hint
    · exact Int.lt_add_one_iff.mp (wrap32_lt _)
  unfold loadPositive
  dsimp only
  split_ifs with hle
  · exact ⟨hpos, hint⟩
  · exact ⟨not_le.mp hle, hvalue⟩

/-- No interval and no limit is loaded that is not positive. -/
theorem Loaded.positive {r : Settings} (h : Loaded items r) : 0 < r.heartBeatInterval ∧
    0 < r.statReportInterval ∧ 0 < r.maxConnections ∧ r.maxConnections ≤ INT_MAX := by
  have hconnections : 0 < loadPositive (ascii "max_connections") items FDFS_DEF_MAX_CONNECTONS ∧
      loadPositive (ascii "max_connections") items FDFS_DEF_MAX_CONNECTONS ≤ INT_MAX :=
    loadPositive_bounds _ items (by decide) (by decide)
  rw [h.heartBeatInterval, h.statReportInterval, h.maxConnections]
  exact ⟨(loadPositive_bounds _ items (by decide) (by decide)).1,
    (loadPositive_bounds _ items (by decide) (by decide)).1, hconnections⟩

theorem loadBasePath_ne_zero {errno e : Errno} (h : loadBasePath items errno w = .error e) :
    e ≠ 0 := by
  unfold loadBasePath at h
  split at h
  · cases h
    decide
  · dsimp only at h
    split at h
    · cases h
      exact errnoOr_ENOENT_ne_zero errno
    · split at h
      · split at h
        · cases h
        · cases h
          decide
      · cases h
        decide

/-- The last part keeps what was loaded before it. -/
theorem loadServers_loaded (h : (loadServers env items g).1 = 0) :
    ∃ count servers, (loadServers env items g).2 = { g with
      trackerServerCount := count
      trackerServer := servers
      syncWaitUsec := wrap32
        (loadPositive (ascii "sync_wait_usec") items STORAGE_DEF_SYNC_WAIT_MSEC * 1000)
      maxConnections := loadPositive (ascii "max_connections") items FDFS_DEF_MAX_CONNECTONS } := by
  unfold loadServers at h ⊢
  dsimp only at h ⊢
  split at h
  · exact absurd h (by decide : ENOENT ≠ 0)
  rename_i hcount
  rw [if_neg hcount]
  split at h
  · exact absurd h (errnoOr_ne_zero (by decide))
  split at h
  · exact absurd h (by decide : EINVAL ≠ 0)
  split at h
  · rename_i hresult
    exact absurd h hresult
  · rename_i hresult
    rw [if_neg hresult]
    exact ⟨_, _, rfl⟩

theorem loadGroupName_loaded (h : (loadGroupName env items g).1 = 0) :
    ∃ value, iniGetStrValue (ascii "group_name") items = some value ∧
      loadGroupName env items g =
        loadServers env items { g with groupName := value.take (sizeofGroupName - 1) } := by
  unfold loadGroupName at h ⊢
  split at h
  · exact absurd h (by decide : ENOENT ≠ 0)
  rename_i value hvalue
  dsimp only at h ⊢
  split at h
  · exact absurd h (by decide : EINVAL ≠ 0)
  rename_i hne
  rw [if_neg hne]
  split at h
  · exact absurd h (by decide : EINVAL ≠ 0)
  rename_i hvalid
  rw [if_neg hvalid]
  exact ⟨value, hvalue, rfl⟩

theorem loadSettings_loaded (h : (loadSettings env items w g).1 = 0) :
    ∃ basePath, loadSettings env items w g =
      loadGroupName env items (loadNumbers items { g with basePath := basePath }) := by
  unfold loadSettings at h ⊢
  split at h
  · exact absurd h (by decide : ECANCELED ≠ 0)
  rename_i henabled
  rw [if_neg henabled]
  split at h
  · exact absurd h (by decide : ENOENT ≠ 0)
  dsimp only at h ⊢
  split at h
  · rename_i hbase
    exact absurd h (loadBasePath_ne_zero hbase)
  · exact ⟨_, rfl⟩

/-- What `iniLoadItems` gives: an error, or the sorted items of the file. -/
theorem iniLoadItems_cases (q : IniQsort) (f : IniFaults) (text : Bytes) :
    (∃ e, e ≠ 0 ∧ iniLoadItems q f text = .error e) ∨
      iniLoadItems q f text = .ok (q.sort (readItems text.length text)) := by
  have hne (e : Errno) : errnoOr e ENOMEM ≠ 0 := errnoOr_ne_zero (by decide)
  unfold iniLoadItems
  split
  · exact .inl ⟨_, hne _, rfl⟩
  · exact .inl ⟨_, hne _, rfl⟩
  · dsimp only
    split
    · split
      · exact .inl ⟨_, hne _, rfl⟩
      · exact .inr rfl
    · exact .inr rfl

/-- A successful load leaves what its lookups find in the sorted items. -/
theorem loaded_of_success (h : (storageLoadFromConfFile q f env text w g).1 = 0) :
    Loaded (q.sort (readItems text.length text))
      (storageLoadFromConfFile q f env text w g).2 := by
  rw [storageLoadFromConfFile] at h ⊢
  rcases iniLoadItems_cases q f text with ⟨e, he, hload⟩ | hload
  · rw [hload] at h
    exact absurd h he
  · rw [hload] at h ⊢
    dsimp only at h ⊢
    obtain ⟨basePath, hsettings⟩ := loadSettings_loaded h
    rw [hsettings] at h ⊢
    obtain ⟨groupName, hvalue, hgroup⟩ := loadGroupName_loaded h
    rw [hgroup] at h ⊢
    obtain ⟨count, servers, hservers⟩ := loadServers_loaded h
    rw [hservers]
    refine ⟨rfl, rfl, rfl, rfl, fun value hbind => ?_, fun value hname => ?_, rfl, rfl⟩
    · simp only [loadNumbers, hbind]
    · rw [Option.some.inj (hvalue.symm.trans hname)]

end Loading

section Configured
variable {q : IniQsort} {f : IniFaults} {env : LoadEnv} {text : Bytes} {items : List IniItemInfo}
variable {w : World} {g r : Settings}

/-- The settings of a configuration file under the names of the shipped one. -/
structure Conf where
  groupName : Bytes
  bindAddr : Bytes
  port : ℕ
  networkTimeout : ℕ
  heartBeatInterval : ℕ
  statReportInterval : ℕ
  syncWaitMsec : ℕ
  maxConnections : ℕ

/-- The items give each name of the shipped file once, with a value in its range. -/
structure GivesConf (items : List IniItemInfo) (c : Conf) : Prop where
  disabled : ∃ value, Gives items (ascii "disabled") value
  groupName : Gives items (ascii "group_name") c.groupName
  validGroupName : trackerValidateGroupName c.groupName = 0 ∧
    (c.groupName.length : ℤ) ≤ FDFS_GROUP_NAME_MAX_LEN
  bindAddr : Gives items (ascii "bind_addr") c.bindAddr
  port : GivesNumber items (ascii "port") c.port 1
  networkTimeout : GivesNumber items (ascii "network_timeout") c.networkTimeout 1
  heartBeatInterval : GivesNumber items (ascii "heart_beat_interval") c.heartBeatInterval 1
  statReportInterval : GivesNumber items (ascii "stat_report_interval") c.statReportInterval 1
  basePath : ∃ value, Gives items (ascii "base_path") value
  syncWaitMsec : GivesNumber items (ascii "sync_wait_msec") c.syncWaitMsec 1000
  maxConnections : GivesNumber items (ascii "max_connections") c.maxConnections 1
  trackerServer : ∃ value, Gives items (ascii "tracker_server") value

/-- Every setting is the configured one, the bind address as far as the caller's buffer holds. -/
structure InEffect (c : Conf) (addrSize : ℕ) (r : Settings) : Prop where
  networkTimeout : r.networkTimeout = c.networkTimeout
  serverPort : r.serverPort = c.port
  heartBeatInterval : r.heartBeatInterval = c.heartBeatInterval
  statReportInterval : r.statReportInterval = c.statReportInterval
  syncWaitUsec : r.syncWaitUsec = 1000 * c.syncWaitMsec
  maxConnections : r.maxConnections = c.maxConnections
  groupName : r.groupName = c.groupName
  bindAddr : r.bindAddr = c.bindAddr.take (addrSize - 1)

/-- The lookups that go by another name find the configured number, or the default where that
name is not given: the wait up to what is lost when an `int` is scaled by 1000. The bind
address is cut to seven bytes where the buffer cuts it, if at all. -/
structure LookedUp (items : List IniItemInfo) (c : Conf) (addrSize : ℕ) : Prop where
  networkTimeout :
    loadPositive (ascii "network_tmeout") items DEFAULT_NETWORK_TIMEOUT = c.networkTimeout
  syncWait : (loadPositive (ascii "sync_wait_usec") items STORAGE_DEF_SYNC_WAIT_MSEC -
    c.syncWaitMsec) % 536870912 = 0
  bindAddr : min 7 c.bindAddr.length = min (addrSize - 1) c.bindAddr.length

/-- The settings looked up by their own names are the configured ones in any case. -/
theorem listed_settings {c : Conf} (hconf : GivesConf items c) (h : Loaded (q.sort items) r) :
    r.serverPort = c.port ∧ r.heartBeatInterval = c.heartBeatInterval ∧
      r.statReportInterval = c.statReportInterval ∧ r.maxConnections = c.maxConnections ∧
      r.groupName = c.groupName ∧ r.bindAddr = c.bindAddr.take (sizeofBindAddr - 1) := by
  refine ⟨?_, ?_, ?_, ?_, ?_, h.bindAddr _ (iniGetStrValue_gives q hconf.bindAddr)⟩
  · rw [h.serverPort, loadPositive_gives q Nat.one_pos hconf.port]
  · rw [h.heartBeatInterval, loadPositive_gives q Nat.one_pos hconf.heartBeatInterval]
  · rw [h.statReportInterval, loadPositive_gives q Nat.one_pos hconf.statReportInterval]
  · rw [h.maxConnections, loadPositive_gives q Nat.one_pos hconf.maxConnections]
  · have hlen := hconf.validGroupName.2
    rw [FDFS_GROUP_NAME_MAX_LEN] at hlen
    rw [h.groupName _ (iniGetStrValue_gives q hconf.groupName)]
    refine List.take_of_length_le ?_
    rw [sizeofGroupName]
    omega

/-- A wait that fits its `int` is scaled to itself up to the wrap-around. -/
theorem wrap32_scaled {n : ℤ} {m : ℕ} (hm : (m * (1000 : ℕ) : ℤ) ≤ INT_MAX) :
    wrap32 (n * 1000) = 1000 * m ↔ (n - m) % 536870912 = 0 := by
  rw [INT_MAX] at hm
  have hfits : wrap32 (1000 * m) = 1000 * m := wrap32_eq (by omega) (by omega)
  have hdiff : n * 1000 - 1000 * m = 8 * (125 * (n - m)) := by ring
  have hmod : (4294967296 : ℤ) = 8 * 536870912 := by norm_num
  rw [← hfits, wrap32_eq_wrap32, Int.emod_eq_emod_iff_emod_sub_eq_zero, hdiff, hmod,
    ← Int.dvd_iff_emod_eq_zero, ← Int.dvd_iff_emod_eq_zero,
    mul_dvd_mul_iff_left (by norm_num : (8 : ℤ) ≠ 0)]
  constructor
  · exact fun h => Int.dvd_of_dvd_mul_right_of_gcd_one h (by decide)
  · exact fun h => h.mul_left 125

theorem inEffect_iff {c : Conf} {addrSize : ℕ} (hconf : GivesConf items c)
    (h : Loaded (q.sort items) r) :
    InEffect c addrSize r ↔ LookedUp (q.sort items) c addrSize := by
  obtain ⟨hport, hbeat, hreport, hmax, hgroup, hbind⟩ := listed_settings hconf h
  obtain ⟨-, -, -, -, hscaled⟩ := hconf.syncWaitMsec
  have hwait := wrap32_scaled (n := loadPositive (ascii "sync_wait_usec") (q.sort items)
    STORAGE_DEF_SYNC_WAIT_MSEC) hscaled
  have haddr : r.bindAddr = c.bindAddr.take (addrSize - 1) ↔
      min 7 c.bindAddr.length = min (addrSize - 1) c.bindAddr.length := by
    rw [hbind]
    exact List.take_eq_take_iff
  constructor
  · intro he
    exact ⟨h.networkTimeout ▸ he.networkTimeout, hwait.mp (h.syncWaitUsec ▸ he.syncWaitUsec),
      haddr.mp he.bindAddr⟩
  · intro hl
    exact ⟨h.networkTimeout.trans hl.networkTimeout, hport, hbeat, hreport,
      h.syncWaitUsec.trans (hwait.mpr hl.syncWait), hmax, hgroup, haddr.mpr hl.bindAddr⟩

/-- The names that the code looks up and the configuration file does not have. -/
def Unlisted (items : List IniItemInfo) : Prop :=
  ∀ item ∈ items, item.name ≠ ascii "network_tmeout" ∧ item.name ≠ ascii "sync_wait_usec"

/-- A file of listed names is in effect only with the default timeout and the default wait. -/
theorem lookedUp_iff {c : Conf} {addrSize : ℕ} (hconf : GivesConf items c) (h : Unlisted items) :
    LookedUp (q.sort items) c addrSize ↔ c.networkTimeout = 30 ∧ c.syncWaitMsec = 100 ∧
      min 7 c.bindAddr.length = min (addrSize - 1) c.bindAddr.length := by
  have htimeout := loadPositive_none q (fun item hi => (h item hi).1) (by decide)
    DEFAULT_NETWORK_TIMEOUT
  have hwait := loadPositive_none q (fun item hi => (h item hi).2) (by decide)
    STORAGE_DEF_SYNC_WAIT_MSEC
  obtain ⟨-, -, -, -, hscaled⟩ := hconf.syncWaitMsec
  rw [INT_MAX] at hscaled
  constructor
  · rintro ⟨h1, h2, h3⟩
    rw [htimeout, DEFAULT_NETWORK_TIMEOUT] at h1
    rw [hwait, STORAGE_DEF_SYNC_WAIT_MSEC] at h2
    exact ⟨by omega, by omega, h3⟩
  · rintro ⟨h1, h2, h3⟩
    refine ⟨?_, ?_, h3⟩
    · rw [htimeout, h1]
      rfl
    · rw [hwait, h2]
      rfl

/-- What a file configures is in effect after a successful load exactly if the lookups by other
names happen to find it and the bind address is short; without such names that leaves the
default timeout and the default wait. -/
theorem storageLoadFromConfFile_settings (q : IniQsort) (f : IniFaults) (env : LoadEnv)
    (w : World) (g : Settings) (addrSize : ℕ) {text : Bytes} {c : Conf}
    (hconf : GivesConf (readItems text.length text) c)
    (hload : (storageLoadFromConfFile q f env text w g).1 = 0) :
    let r := (storageLoadFromConfFile q f env text w g).2
    let items := readItems text.length text
    (InEffect c addrSize r ↔ LookedUp (q.sort items) c addrSize) ∧
      (Unlisted items → (InEffect c addrSize r ↔ c.networkTimeout = 30 ∧ c.syncWaitMsec = 100 ∧
        min 7 c.bindAddr.length = min (addrSize - 1) c.bindAddr.length)) := by
  have hiff : InEffect c addrSize _ ↔ LookedUp (q.sort (readItems text.length text)) c addrSize :=
    inEffect_iff hconf (loaded_of_success hload)
  exact ⟨hiff, fun hunlisted => hiff.trans (lookedUp_iff hconf hunlisted)⟩

/-- The shipped file with a short base path, and a timeout and a wait in digits. -/
def confPairs (timeout wait : List ℕ) : List (Bytes × Bytes) :=
  [(ascii "disabled", ascii "false"), (ascii "group_name", ascii "group1"), (ascii "bind_addr", []),
    (ascii "port", [2, 3, 0, 0, 0].map digitChar),
    (ascii "network_timeout", timeout.map digitChar),
    (ascii "heart_beat_interval", [3, 0].map digitChar),
    (ascii "stat_report_interval", [6, 0].map digitChar), (ascii "base_path", ascii "/s"),
    (ascii "sync_wait_msec", wait.map digitChar),
    (ascii "max_connections", [1, 0, 2, 4].map digitChar),
    (ascii "tracker_server", ascii "10.0.2.15:22122")]

def confOf (timeout wait : List ℕ) : Conf where
  groupName := ascii "group1"
  bindAddr := []
  port := digitsToNat 10 [2, 3, 0, 0, 0]
  networkTimeout := digitsToNat 10 timeout
  heartBeatInterval := digitsToNat 10 [3, 0]
  statReportInterval := digitsToNat 10 [6, 0]
  syncWaitMsec := digitsToNat 10 wait
  maxConnections := digitsToNat 10 [1, 0, 2, 4]

/-- A number in range, as the items give it. -/
structure DigitsFit (ds : List ℕ) (scale : ℕ) : Prop where
  digits : ∀ d ∈ ds, d < 10
  pos : 0 < digitsToNat 10 ds
  le : (digitsToNat 10 ds * scale : ℤ) ≤ INT_MAX

theorem DigitsFit.gives {ds : List ℕ} {scale : ℕ} (hds : DigitsFit ds scale) {szName : Bytes}
    (h : Gives items szName (ds.map digitChar)) :
    GivesNumber items szName (digitsToNat 10 ds) scale := by
  refine ⟨_, h, ⟨ds, ?_, hds.digits, rfl, rfl⟩, hds.pos, hds.le⟩
  rintro rfl
  exact absurd hds.pos (by decide)

theorem givesConf_confPairs {timeout wait : List ℕ} (htimeout : DigitsFit timeout 1)
    (hwait : DigitsFit wait 1000) (h : items.map setting = confPairs timeout wait) :
    GivesConf items (confOf timeout wait) := by
  have hgives {szName value : Bytes} (hmem : (confPairs timeout wait).filter
      (fun p => p.1 = szName) = [(szName, value)]) : Gives items szName value :=
    gives_iff_setting.mpr (h ▸ hmem)
  constructor
  · exact ⟨_, hgives rfl⟩
  · exact hgives rfl
  · change trackerValidateGroupName (ascii "group1") = 0 ∧
      ((ascii "group1").length : ℤ) ≤ FDFS_GROUP_NAME_MAX_LEN
    decide
  · exact hgives rfl
  · exact DigitsFit.gives ⟨by decide, by decide, by decide⟩ (hgives rfl)
  · exact htimeout.gives (hgives rfl)
  · exact DigitsFit.gives ⟨by decide, by decide, by decide⟩ (hgives rfl)
  · exact DigitsFit.gives ⟨by decide, by decide, by decide⟩ (hgives rfl)
  · exact ⟨_, hgives rfl⟩
  · exact hwait.gives (hgives rfl)
  · exact DigitsFit.gives ⟨by decide, by decide, by decide⟩ (hgives rfl)
  · exact ⟨_, hgives rfl⟩

/-- A tree with the base path, and settings as the process starts. -/
def confWorld : World := .initial (FileTree.empty.makeDir [ascii "s"]) []

def confEnv : LoadEnv := { net := literalNet, bsearch := halvingBsearch }

def noSettings : Settings := ⟨[], 0, 0, 0, 0, [], [], 0, none, 0, 0⟩

/-- With the timeout and the wait of the shipped file. -/
theorem shipped_not_in_effect :
    let text := iniText (confPairs [2, 0] [2, 0, 0])
    let r := storageLoadFromConfFile insertionIniQsort {} confEnv text confWorld noSettings
    GivesConf (readItems text.length text) (confOf [2, 0] [2, 0, 0]) ∧ r.1 = 0 ∧
      r.2.networkTimeout = 30 ∧ r.2.syncWaitUsec = 100000 ∧
      ¬ InEffect (confOf [2, 0] [2, 0, 0]) FDFS_IPADDR_SIZE r.2 := by
  intro text r
  have hread : (readItems text.length text).map setting = confPairs [2, 0] [2, 0, 0] := by
    decide +kernel
  obtain ⟨hload, htimeout, hwait⟩ :
      r.1 = 0 ∧ r.2.networkTimeout = 30 ∧ r.2.syncWaitUsec = 100000 := by decide +kernel
  refine ⟨givesConf_confPairs ⟨by decide, by decide, by decide⟩ ⟨by decide, by decide, by decide⟩
    hread, hload, htimeout, hwait, fun h => ?_⟩
  have hconf := h.networkTimeout
  rw [htimeout] at hconf
  revert hconf
  decide

/-- With the defaults as values. -/
theorem defaults_in_effect :
    let text := iniText (confPairs [3, 0] [1, 0, 0])
    let r := storageLoadFromConfFile insertionIniQsort {} confEnv text confWorld noSettings
    r.1 = 0 ∧ InEffect (confOf [3, 0] [1, 0, 0]) FDFS_IPADDR_SIZE r.2 := by
  intro text r
  have hread : (readItems text.length text).map setting = confPairs [3, 0] [1, 0, 0] := by
    decide +kernel
  have hconf : GivesConf (readItems text.length text) (confOf [3, 0] [1, 0, 0]) :=
    givesConf_confPairs ⟨by decide, by decide, by decide⟩ ⟨by decide, by decide, by decide⟩ hread
  have hload : r.1 = 0 := by decide +kernel
  have hunlisted : Unlisted (readItems text.length text) := by
    unfold Unlisted
    decide +kernel
  exact ⟨hload, ((storageLoadFromConfFile_settings insertionIniQsort {} confEnv confWorld noSettings
    FDFS_IPADDR_SIZE hconf hload).2 hunlisted).mpr ⟨by decide, by decide, by decide⟩⟩

end Configured

end DemoStorage.LoadedSettings
