import DemoStorage.ComparedTables
import DemoStorage.MetadataRecords
import DemoStorage.IniFiles
import DemoStorage.TrackerProtocol

/-!
# The table of tracker servers

The `tracker_server` values of the configuration are resolved one by one and inserted into a
table that is kept sorted by address and port. What comes out is the ascending list of the
distinct servers, whatever the order of the values and however often one is repeated.
-/

namespace DemoStorage.TrackerServers
open ByteStrings PosixFileTree MetadataRecords IniFiles TrackerProtocol ComparedTables

def FDFS_TRACKER_SERVER_DEF_PORT : ℤ := 22000
def INADDR_NONE : ℕ := 4294967295

/-- `sizeof(szHost)`. -/
def sizeofHost : ℕ := 128

/-- The name functions of the C library: an address from its text, the addresses of a host, and
the text of an address. -/
structure Resolver where
  inetPton : Bytes → Option ℕ
  gethostbyname : Bytes → Option (List ℕ)
  inetNtoa : ℕ → Bytes

/-- An entry of the table, as far as the configuration fills it. -/
@[ext] structure TrackerServerInfo where
  ipAddr : Bytes
  port : ℤ
  ipAddr_cstr : 0 ∉ ipAddr
  ipAddr_length : ipAddr.length < FDFS_IPADDR_SIZE
  port_nonneg : 0 ≤ port
  port_le : port ≤ INT_MAX

/-- A cleared entry. -/
def TrackerServerInfo.cleared : TrackerServerInfo :=
  ⟨[], 0, by decide, by decide, by decide, by decide⟩

/-- The sign of the comparison of two C strings. -/
def strcmp (a b : Bytes) : ℤ := if a < b then -1 else if b < a then 1 else 0

def storageCmpByIpAndPort (p1 p2 : TrackerServerInfo) : ℤ :=
  let res := strcmp p1.ipAddr p2.ipAddr
  if res ≠ 0 then res else p1.port - p2.port

/-- `snprintf` into the address of an entry. -/
def cutIpAddr (text : Bytes) : Bytes := (cstr text).take (FDFS_IPADDR_SIZE - 1)

/-- The address of a host as text, unless the function returns `INADDR_NONE`. -/
def getIpaddrByName (net : Resolver) (name : Bytes) : Option Bytes :=
  match net.inetPton name with
  | some addr => if addr = INADDR_NONE then none else some (cutIpAddr name)
  | none => match net.gethostbyname name with
    | some (addr :: _) => if addr = INADDR_NONE then none else some (cutIpAddr (net.inetNtoa addr))
    | _ => none

theorem getIpaddrByName_spec {net : Resolver} {name ip : Bytes}
    (h : getIpaddrByName net name = some ip) : 0 ∉ ip ∧ ip.length < FDFS_IPADDR_SIZE := by
  have hcut (text : Bytes) : 0 ∉ cutIpAddr text ∧ (cutIpAddr text).length < FDFS_IPADDR_SIZE := by
    refine ⟨fun h0 => zero_notMem_cstr text (List.mem_of_mem_take h0), ?_⟩
    rw [cutIpAddr, List.length_take, FDFS_IPADDR_SIZE]
    omega
  unfold getIpaddrByName at h
  split at h
  · split_ifs at h
    cases h
    exact hcut _
  · split at h
    · split_ifs at h
      cases h
      exact hcut _
    · cases h

/-- The host of a value, cut to its array. -/
def hostText (host : Bytes) : Bytes := host.take (sizeofHost - 1)

/-- The port behind the separator, or the default. -/
def portOf (text : Bytes) : ℤ := if atoi text ≤ 0 then FDFS_TRACKER_SERVER_DEF_PORT else atoi text

theorem portOf_range (text : Bytes) : 0 ≤ portOf text ∧ portOf text ≤ INT_MAX := by
  have hint : atoi text < 2147483648 := wrap32_lt _
  rw [INT_MAX, portOf, FDFS_TRACKER_SERVER_DEF_PORT]
  split_ifs <;> omega

/-- The server a value names; without one the value is invalid. -/
def serverOf (net : Resolver) (value : Bytes) : Option TrackerServerInfo :=
  match strchr 58 value with
  | none => none
  | some (host, port) => match h : getIpaddrByName net (hostText host) with
    | none => none
    | some ip =>
      if ip = ascii "127.0.0.1" then none
      else some {
        ipAddr := ip
        port := portOf port
        ipAddr_cstr := (getIpaddrByName_spec h).1
        ipAddr_length := (getIpaddrByName_spec h).2
        port_nonneg := (portOf_range port).1
        port_le := (portOf_range port).2 }

/-- `none` is a write behind the end of the table. -/
def insertIntoSortedServers (server : TrackerServerInfo) (t : Table TrackerServerInfo) :
    Option (List TrackerServerInfo) :=
  shiftInsert (storageCmpByIpAndPort server) server t.count t.slots

def copyLoop (net : Resolver) : List Bytes → Table TrackerServerInfo →
    Option (Table TrackerServerInfo × Errno)
  | [], t => some (t, 0)
  | value :: values, t => match serverOf net value with
    | none => some (t, EINVAL)
    | some server =>
      if (bsearch (storageCmpByIpAndPort server) t.entries).isNone then
        (insertIntoSortedServers server t).bind fun slots =>
          copyLoop net values ⟨slots, t.count + 1⟩
      else copyLoop net values t

/-- The table has as many entries as there are values. -/
def copyTrackerServers (net : Resolver) (values : List Bytes) :
    Option (Table TrackerServerInfo × Errno) :=
  copyLoop net values ⟨List.replicate values.length .cleared, 0⟩

section Comparison

theorem strcmp_neg {a b : Bytes} : strcmp a b < 0 ↔ a < b := by
  unfold strcmp
  split_ifs with h1 h2 <;> simp [h1]

theorem strcmp_pos {a b : Bytes} : 0 < strcmp a b ↔ b < a := by
  unfold strcmp
  split_ifs with h1 h2
  · simp [List.lt_asymm h1]
  · simp [h2]
  · simp [h2]

theorem strcmp_eq_zero {a b : Bytes} : strcmp a b = 0 ↔ a = b := by
  constructor
  · intro h
    have hab : ¬ a < b := fun hlt => by
      have hneg := strcmp_neg.mpr hlt
      omega
    have hba : ¬ b < a := fun hlt => by
      have hpos := strcmp_pos.mpr hlt
      omega
    exact List.le_antisymm (List.not_lt.mp hba) (List.not_lt.mp hab)
  · rintro rfl
    rw [strcmp, if_neg (List.lt_irrefl a), if_neg (List.lt_irrefl a)]

theorem storageCmpByIpAndPort_of_eq {p q : TrackerServerInfo} (h : p.ipAddr = q.ipAddr) :
    storageCmpByIpAndPort p q = p.port - q.port := by
  rw [storageCmpByIpAndPort, strcmp_eq_zero.mpr h]
  rfl

theorem storageCmpByIpAndPort_of_ne {p q : TrackerServerInfo} (h : p.ipAddr ≠ q.ipAddr) :
    storageCmpByIpAndPort p q = strcmp p.ipAddr q.ipAddr :=
  if_pos (mt strcmp_eq_zero.mp h)

/-- By address, and by port where the addresses are equal. -/
theorem storageCmpByIpAndPort_neg {p q : TrackerServerInfo} : storageCmpByIpAndPort p q < 0 ↔
    p.ipAddr < q.ipAddr ∨ (p.ipAddr = q.ipAddr ∧ p.port < q.port) := by
  by_cases h : p.ipAddr = q.ipAddr
  · have hnot : ¬ p.ipAddr < q.ipAddr := h ▸ List.lt_irrefl _
    rw [storageCmpByIpAndPort_of_eq h, or_iff_right hnot, and_iff_right h]
    omega
  · rw [storageCmpByIpAndPort_of_ne h, strcmp_neg, or_iff_left fun he => h he.1]

/-- Ports are not negative, so their difference is the one of the source's `int`s. -/
theorem storageCmpByIpAndPort_lawful : Lawful storageCmpByIpAndPort := by
  constructor
  · intro p q
    rw [TrackerServerInfo.ext_iff]
    by_cases h : p.ipAddr = q.ipAddr
    · rw [storageCmpByIpAndPort_of_eq h, and_iff_right h]
      omega
    · rw [storageCmpByIpAndPort_of_ne h, strcmp_eq_zero]
      exact ⟨fun he => absurd he h, fun he => he.1⟩
  · intro p q
    rw [storageCmpByIpAndPort_neg]
    by_cases h : p.ipAddr = q.ipAddr
    · have hnot : ¬ q.ipAddr < p.ipAddr := h ▸ List.lt_irrefl _
      rw [storageCmpByIpAndPort_of_eq h, or_iff_right hnot, and_iff_right h.symm]
      omega
    · rw [storageCmpByIpAndPort_of_ne h, strcmp_pos, or_iff_left fun he => h he.1.symm]
  · intro p q r hpq hqr
    rw [storageCmpByIpAndPort_neg] at hpq hqr ⊢
    rcases hpq with hpq | ⟨hpq, hports⟩
    · rcases hqr with hqr | ⟨hqr, -⟩
      · exact .inl (List.lt_trans hpq hqr)
      · exact .inl (hqr ▸ hpq)
    · rcases hqr with hqr | ⟨hqr, hports'⟩
      · exact .inl (hpq ▸ hqr)
      · exact .inr ⟨hpq.trans hqr, hports.trans hports'⟩

end Comparison

section Copying
variable {net : Resolver}

/-- The servers that the values name. -/
def Names (net : Resolver) (values : List Bytes) (server : TrackerServerInfo) : Prop :=
  ∃ value ∈ values, serverOf net value = some server

theorem names_cons {value : Bytes} {values : List Bytes} {d : TrackerServerInfo} :
    Names net (value :: values) d ↔ serverOf net value = some d ∨ Names net values d := by
  simp only [Names, List.mem_cons, exists_eq_or_imp]

/-- One value leaves an ordered table with its server in it, and at most one more entry. -/
theorem copyLoop_cons {value : Bytes} {server : TrackerServerInfo}
    (hserver : serverOf net value = some server) (values : List Bytes)
    {t : Table TrackerServerInfo} (ht : t.Ordered storageCmpByIpAndPort)
    (hfree : t.count < t.slots.length) :
    ∃ t' : Table TrackerServerInfo, copyLoop net (value :: values) t = copyLoop net values t' ∧
      t'.Ordered storageCmpByIpAndPort ∧ t'.slots.length = t.slots.length ∧
      t'.count ≤ t.count + 1 ∧ ∀ d, d ∈ t'.entries ↔ d = server ∨ d ∈ t.entries := by
  have hfound := bsearch_isSome_iff storageCmpByIpAndPort_lawful ht.ascending server
  by_cases hmem : server ∈ t.entries
  · refine ⟨t, ?_, ht, rfl, Nat.le_succ _, fun d => ⟨.inr, ?_⟩⟩
    · have hnone : ¬ (bsearch (storageCmpByIpAndPort server) t.entries).isNone := by
        rw [Option.isNone_iff_eq_none, ← ne_eq, ← Option.isSome_iff_ne_none]
        exact hfound.mpr hmem
      rw [copyLoop, hserver]
      exact if_neg hnone
    · rintro (rfl | hd)
      · exact hmem
      · exact hd
  · obtain ⟨slots, hinsert, hlen, hordered, hentries⟩ :=
      ht.insert storageCmpByIpAndPort_lawful hfree hmem
    refine ⟨⟨slots, t.count + 1⟩, ?_, hordered, hlen, le_refl _, hentries⟩
    have hnone : (bsearch (storageCmpByIpAndPort server) t.entries).isNone := by
      rw [Option.isNone_iff_eq_none, ← Option.not_isSome_iff_eq_none]
      exact fun h => hmem (hfound.mp h)
    rw [copyLoop, hserver]
    dsimp only
    rw [if_pos hnone, insertIntoSortedServers, hinsert, Option.bind_some]

/-- The loop stays within a table with a free entry for each value. -/
theorem copyLoop_spec (values : List Bytes) {t : Table TrackerServerInfo}
    (ht : t.Ordered storageCmpByIpAndPort) (hfree : t.count + values.length ≤ t.slots.length) :
    ∃ t' r, copyLoop net values t = some (t', r) ∧ t'.Ordered storageCmpByIpAndPort ∧
      t'.slots.length = t.slots.length ∧
      (r = 0 ↔ ∀ value ∈ values, (serverOf net value).isSome) ∧
      (r = 0 → ∀ d, d ∈ t'.entries ↔ d ∈ t.entries ∨ Names net values d) := by
  induction values generalizing t with
  | nil => exact ⟨t, 0, rfl, ht, rfl, by simp, by simp [Names]⟩
  | cons value values ih =>
    rw [List.length_cons] at hfree
    cases hserver : serverOf net value with
    | none =>
      refine ⟨t, EINVAL, by rw [copyLoop, hserver], ht, rfl, ?_, fun h => ?_⟩
      · refine ⟨fun h => absurd h (by decide), fun h => ?_⟩
        have hsome := h value List.mem_cons_self
        rw [hserver] at hsome
        cases hsome
      · exact absurd h (by decide)
    | some server =>
      obtain ⟨t1, hstep, hordered, hlen, hcount, hentries⟩ :=
        copyLoop_cons hserver values ht (by omega)
      obtain ⟨t', r, hrun, hordered', hlen', hzero, hmem⟩ := ih hordered (by omega)
      refine ⟨t', r, hstep.trans hrun, hordered', hlen'.trans hlen, ?_, fun hr d => ?_⟩
      · rw [hzero, List.forall_mem_cons, hserver]
        simp
      · rw [hmem hr, hentries, names_cons, hserver, Option.some.injEq, eq_comm (a := server),
          or_assoc, or_left_comm]

/-- The table is never overrun. Where the copying returns 0 it holds the servers that the values
name, each once and in ascending order, and any values that are the same up to order and
repetition give the same servers. -/
theorem copyTrackerServers_sorted (net : Resolver) (values : List Bytes) :
    ∃ t r, copyTrackerServers net values = some (t, r) ∧ t.slots.length = values.length ∧
      t.count ≤ values.length ∧ (r = 0 →
        t.entries.length = t.count ∧
        t.entries.Pairwise (fun a b => storageCmpByIpAndPort a b < 0) ∧
        (∀ d, d ∈ t.entries ↔ Names net values d) ∧
        ∀ values' : List Bytes, (∀ value, value ∈ values' ↔ value ∈ values) →
          ∃ t', copyTrackerServers net values' = some (t', 0) ∧ t'.entries = t.entries) := by
  have hspec (vs : List Bytes) := @copyLoop_spec net vs
    (t := ⟨List.replicate vs.length .cleared, 0⟩) ⟨Nat.zero_le _, List.Pairwise.nil⟩ (by simp)
  obtain ⟨t, r, hrun, hordered, hlen, hzero, hmem⟩ := hspec values
  rw [List.length_replicate] at hlen
  refine ⟨t, r, hrun, hlen, hlen ▸ hordered.count_le, fun hr => ⟨hordered.length_entries,
    hordered.ascending, fun d => ?_, fun values' hsame => ?_⟩⟩
  · rw [hmem hr]
    exact or_iff_right (by simp [Table.entries])
  · obtain ⟨t', r', hrun', hordered', -, hzero', hmem'⟩ := hspec values'
    have hr' : r' = 0 := hzero'.mpr fun value hv => hzero.mp hr value ((hsame value).mp hv)
    refine ⟨t', hr' ▸ hrun', hordered'.ascending.ext storageCmpByIpAndPort_lawful
      hordered.ascending fun d => ?_⟩
    rw [hmem hr, hmem' hr']
    simp only [Names, hsame]
    rfl

/-- A part of an address in dotted notation: up to three digits, below 256 and without a zero in
front. -/
def addressByte (part : Bytes) : Option ℕ :=
  let value := digitsToNat 10 (part.map fun c => c.toNat - 48)
  if part.all (fun c => 48 ≤ c ∧ c ≤ 57) ∧ part.length ≤ 3 ∧ value < 256 ∧
    numeral 10 value = part then some value else none

/-- Addresses in dotted notation, the first part in the lowest byte, and no host names. -/
def literalNet : Resolver where
  inetPton name := match (name.splitOn 46).mapM addressByte with
    | some [a, b, c, d] => some (a + 256 * (b + 256 * (c + 256 * d)))
    | _ => none
  gethostbyname _ := none
  inetNtoa addr := [46].intercalate
    ([addr, addr / 256, addr / 65536, addr / 16777216].map fun part => numeral 10 (part % 256))

example : (literalNet.inetPton (ascii "10.0.2.15")).map
    (fun addr => (addr, literalNet.inetNtoa addr)) = some (251789322, ascii "10.0.2.15") := by
  decide +kernel

/-- Two servers, one of them twice and the other without a port. -/
def threeValues : List Bytes := [ascii "10.0.0.2:5", ascii "10.0.0.1:", ascii "10.0.0.2:05"]

theorem threeValues_sorted : ∃ t, copyTrackerServers literalNet threeValues = some (t, 0) ∧
    t.entries.Pairwise fun a b => storageCmpByIpAndPort a b < 0 := by
  obtain ⟨t, r, hrun, -, -, h⟩ := copyTrackerServers_sorted literalNet threeValues
  have hzero : (copyTrackerServers literalNet threeValues).map Prod.snd = some 0 := by
    decide +kernel
  rw [hrun, Option.map_some, Option.some.injEq] at hzero
  obtain rfl : r = 0 := hzero
  exact ⟨t, hrun, (h rfl).2.1⟩

example : (copyTrackerServers literalNet threeValues).map
    (fun r => r.1.entries.map fun s => (s.ipAddr, s.port)) =
      some [(ascii "10.0.0.1", 22000), (ascii "10.0.0.2", 5)] := by decide +kernel

end Copying

section Hosts

/-- The host of a value that comes from the configuration file is never cut. -/
theorem hostText_of_value {value : Bytes} {f : Bytes × Bytes}
    (hvalue : value.length ≤ INI_ITEM_VALUE_LEN) (h : strchr 58 value = some f) :
    hostText f.1 = f.1 := by
  have hlen := congrArg List.length (strchr_eq_some h).1
  rw [List.length_append, List.length_cons] at hlen
  rw [INI_ITEM_VALUE_LEN] at hvalue
  refine List.take_of_length_le ?_
  rw [sizeofHost]
  omega

end Hosts

end DemoStorage.TrackerServers
