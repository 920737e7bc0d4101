import DemoStorage.SlotTables
import DemoStorage.TrackerProtocol

/-!
# The table of local addresses

`insert_into_local_host_ip` writes an address into the next slot of a packed array unless
`is_local_host_ip` finds it there. The search steps by one byte and not by one slot, so that it
also finds every suffix of an address in the table, and such a suffix is never inserted.
-/

namespace DemoStorage.LocalHostTable
open ByteStrings SlotTables TrackerProtocol

def STORAGE_MAX_LOCAL_IP_ADDRS : ℕ := 4

/-- `g_local_host_ip_addrs` and `g_local_host_ip_count`. -/
structure LocalHosts where
  addrs : Bytes
  count : ℕ

/-- The globals as the process starts. -/
def noHosts : LocalHosts := ⟨List.replicate (STORAGE_MAX_LOCAL_IP_ADDRS * FDFS_IPADDR_SIZE) 0, 0⟩

/-- An address that fits a slot with its NUL. -/
structure HostAddress where
  text : Bytes
  cstr : 0 ∉ text
  length : text.length < FDFS_IPADDR_SIZE

/-- The loop over the array, one byte at a time. -/
def isLocalHostIp (h : LocalHosts) (clientIp : Bytes) : Bool :=
  (List.range (FDFS_IPADDR_SIZE * h.count)).any fun p => cstr (h.addrs.drop p) = clientIp

/-- `strcpy` to an index of a buffer. -/
def strcpyAt (buff : Bytes) (i : ℕ) (text : Bytes) : Bytes :=
  buff.take i ++ text ++ 0 :: buff.drop (i + text.length + 1)

def insertIntoLocalHostIp (h : LocalHosts) (clientIp : Bytes) : LocalHosts × ℤ :=
  if isLocalHostIp h clientIp then (h, 0)
  else if STORAGE_MAX_LOCAL_IP_ADDRS ≤ h.count then (h, -1)
  else (⟨strcpyAt h.addrs (FDFS_IPADDR_SIZE * h.count) clientIp, h.count + 1⟩, 1)

/-- The table behind a sequence of insertions. -/
def insertAll (xs : List HostAddress) : LocalHosts :=
  xs.foldl (fun h x => (insertIntoLocalHostIp h x.text).1) noHosts

/-- The slot of an entry, and the strings in the slots that are taken. -/
def LocalHosts.slotBytes (h : LocalHosts) (i : ℕ) : Bytes :=
  (h.addrs.drop (FDFS_IPADDR_SIZE * i)).take FDFS_IPADDR_SIZE

def LocalHosts.entries (h : LocalHosts) : List Bytes :=
  (List.range h.count).map fun i => cstr (h.slotBytes i)

section Layout
variable {es : List Bytes} {h : LocalHosts}

/-- The array holds these strings in its first slots, and NULs behind them. -/
structure Holds (es : List Bytes) (h : LocalHosts) : Prop where
  addrs : h.addrs = slots FDFS_IPADDR_SIZE es ++
    List.replicate (FDFS_IPADDR_SIZE * (STORAGE_MAX_LOCAL_IP_ADDRS - es.length)) 0
  count : h.count = es.length
  room : es.length ≤ STORAGE_MAX_LOCAL_IP_ADDRS
  fits : ∀ e ∈ es, 0 ∉ e ∧ e.length < FDFS_IPADDR_SIZE
  nodup : es.Nodup

theorem holds_noHosts : Holds [] noHosts where
  addrs := rfl
  count := rfl
  room := Nat.zero_le _
  fits := by simp
  nodup := List.nodup_nil

/-- The search finds every suffix of an entry. -/
theorem Holds.isLocalHostIp_iff (hh : Holds es h) (clientIp : Bytes) :
    isLocalHostIp h clientIp = true ↔ ∃ e ∈ es, clientIp <:+ e := by
  rw [← exists_cstr_drop_slots hh.fits, ← hh.addrs, isLocalHostIp, List.any_eq_true]
  simp only [List.mem_range, decide_eq_true_eq, hh.count]

theorem Holds.slotBytes_eq (hh : Holds es h) {i : ℕ} (hi : i < es.length) :
    h.slotBytes i = slot FDFS_IPADDR_SIZE es[i] := by
  rw [LocalHosts.slotBytes, hh.addrs]
  exact take_drop_slots (fun e he => (hh.fits e he).2.le) hi _

theorem Holds.entries_eq (hh : Holds es h) : h.entries = es := by
  apply List.ext_getElem
  · simp [LocalHosts.entries, hh.count]
  · intro i h1 hi
    obtain ⟨h0, hlt⟩ := hh.fits es[i] (List.getElem_mem hi)
    simp only [LocalHosts.entries, List.getElem_map, List.getElem_range, hh.slotBytes_eq hi]
    exact cstr_slot h0 hlt

theorem Holds.zero_mem_slotBytes (hh : Holds es h) {i : ℕ} (hi : i < h.count) :
    0 ∈ h.slotBytes i := by
  have hi' : i < es.length := hh.count ▸ hi
  rw [hh.slotBytes_eq hi']
  exact zero_mem_slot (hh.fits es[i] (List.getElem_mem hi')).2

/-- What an insertion does to the entries. -/
def insertEntry (es : List Bytes) (clientIp : Bytes) : List Bytes :=
  if (∃ e ∈ es, clientIp <:+ e) ∨ STORAGE_MAX_LOCAL_IP_ADDRS ≤ es.length then es
  else es ++ [clientIp]

/-- Copying an address behind the taken slots fills the next one. -/
theorem Holds.strcpyAt_eq (hh : Holds es h) (x : HostAddress)
    (hroom : es.length < STORAGE_MAX_LOCAL_IP_ADDRS) :
    strcpyAt h.addrs (FDFS_IPADDR_SIZE * h.count) x.text =
      slots FDFS_IPADDR_SIZE (es ++ [x.text]) ++ List.replicate
        (FDFS_IPADDR_SIZE * (STORAGE_MAX_LOCAL_IP_ADDRS - (es ++ [x.text]).length)) 0 := by
  have hlen : (slots FDFS_IPADDR_SIZE es).length = FDFS_IPADDR_SIZE * es.length :=
    length_slots fun e he => (hh.fits e he).2.le
  have hx := x.length
  have hdrop : h.addrs.drop (FDFS_IPADDR_SIZE * es.length + x.text.length + 1) = List.replicate
      (FDFS_IPADDR_SIZE * (STORAGE_MAX_LOCAL_IP_ADDRS - es.length) - (x.text.length + 1)) 0 := by
    rw [hh.addrs, Nat.add_assoc, ← List.drop_drop, List.drop_left' hlen, List.drop_replicate]
  have hzeros : FDFS_IPADDR_SIZE * (STORAGE_MAX_LOCAL_IP_ADDRS - es.length) -
      (x.text.length + 1) + 1 = FDFS_IPADDR_SIZE - x.text.length +
        FDFS_IPADDR_SIZE * (STORAGE_MAX_LOCAL_IP_ADDRS - (es.length + 1)) := by
    simp only [FDFS_IPADDR_SIZE, STORAGE_MAX_LOCAL_IP_ADDRS] at hx hroom ⊢
    omega
  rw [strcpyAt, hh.count, hdrop, hh.addrs, List.take_left' hlen, ← List.replicate_succ, hzeros,
    slots_snoc, slot, List.length_append, List.length_singleton, List.replicate_add]
  simp only [List.append_assoc]

theorem Holds.insert (hh : Holds es h) (x : HostAddress) :
    Holds (insertEntry es x.text) (insertIntoLocalHostIp h x.text).1 := by
  rw [insertIntoLocalHostIp, insertEntry]
  by_cases hlocal : isLocalHostIp h x.text = true
  · rw [if_pos hlocal, if_pos (.inl ((hh.isLocalHostIp_iff _).mp hlocal))]
    exact hh
  have hnew : ¬ ∃ e ∈ es, x.text <:+ e := fun hs => hlocal ((hh.isLocalHostIp_iff _).mpr hs)
  by_cases hfull : STORAGE_MAX_LOCAL_IP_ADDRS ≤ h.count
  · rw [if_neg hlocal, if_pos hfull, if_pos (.inr (hh.count ▸ hfull))]
    exact hh
  have hroom : es.length < STORAGE_MAX_LOCAL_IP_ADDRS := hh.count ▸ Nat.lt_of_not_le hfull
  rw [if_neg hlocal, if_neg hfull, if_neg (not_or.mpr ⟨hnew, not_le.mpr hroom⟩)]
  constructor
  · exact hh.strcpyAt_eq x hroom
  · simp [hh.count]
  · rw [List.length_append]
    exact hroom
  · intro e he
    rcases List.mem_append.mp he with he | he
    · exact hh.fits e he
    · obtain rfl := List.mem_singleton.mp he
      exact ⟨x.cstr, x.length⟩
  · have hmem : x.text ∉ es := fun hm => hnew ⟨_, hm, List.suffix_rfl⟩
    exact hh.nodup.append (List.nodup_singleton _) (by simpa using hmem)

theorem insertAll_snoc (xs : List HostAddress) (x : HostAddress) :
    insertAll (xs ++ [x]) = (insertIntoLocalHostIp (insertAll xs) x.text).1 := by
  simp [insertAll, List.foldl_append]

theorem holds_insertAll (xs : List HostAddress) :
    Holds (insertAll xs).entries (insertAll xs) := by
  suffices h : ∃ es, Holds es (insertAll xs) by
    obtain ⟨es, h⟩ := h
    exact h.entries_eq ▸ h
  induction xs using List.reverseRecOn with
  | nil => exact ⟨[], holds_noHosts⟩
  | append_singleton xs x ih =>
    obtain ⟨es, h⟩ := ih
    exact ⟨_, insertAll_snoc xs x ▸ h.insert x⟩

theorem entries_snoc (xs : List HostAddress) (x : HostAddress) :
    (insertAll (xs ++ [x])).entries = insertEntry (insertAll xs).entries x.text := by
  rw [insertAll_snoc]
  exact ((holds_insertAll xs).insert x).entries_eq

end Layout

section Answers
variable {es : List Bytes} {q : Bytes} {xs ys zs : List HostAddress} {x : HostAddress}

/-- The addresses a table is there for: the first different ones, as many as it has slots. -/
def offered (xs : List HostAddress) : List Bytes :=
  offerAll STORAGE_MAX_LOCAL_IP_ADDRS (xs.map HostAddress.text)

theorem offered_snoc : offered (xs ++ [x]) =
    offer STORAGE_MAX_LOCAL_IP_ADDRS (offered xs) x.text := by
  rw [offered, List.map_append, List.map_singleton, offerAll_snoc]
  rfl

theorem mem_offered : q ∈ offered xs ↔ ∃ ys x zs, xs = ys ++ x :: zs ∧
    (offered ys).length < STORAGE_MAX_LOCAL_IP_ADDRS ∧ x.text = q := by
  rw [offered, mem_offerAll]
  constructor
  · rintro ⟨ys', zs', hsplit, hroom⟩
    obtain ⟨ys, tail, rfl, rfl, htail⟩ := List.map_eq_append_iff.mp hsplit
    obtain ⟨x, zs, rfl, rfl, rfl⟩ := List.map_eq_cons_iff.mp htail
    exact ⟨ys, x, zs, rfl, hroom, rfl⟩
  · rintro ⟨ys, x, zs, rfl, hroom, rfl⟩
    exact ⟨ys.map HostAddress.text, zs.map HostAddress.text, by simp, hroom⟩

/-- An address that is not an entry but a suffix of one. -/
def Shadowed (es : List Bytes) (q : Bytes) : Prop := q ∉ es ∧ ∃ e ∈ es, q <:+ e

/-- Insertion does what a table of different addresses asks, unless it meets a shadowed address. -/
theorem insertEntry_eq_offer (h : es.length < STORAGE_MAX_LOCAL_IP_ADDRS → ¬ Shadowed es q) :
    insertEntry es q = offer STORAGE_MAX_LOCAL_IP_ADDRS es q := by
  rw [insertEntry, offer]
  by_cases hfull : STORAGE_MAX_LOCAL_IP_ADDRS ≤ es.length
  · rw [if_pos (.inr hfull), if_pos (.inr hfull)]
  by_cases hq : q ∈ es
  · rw [if_pos (.inl ⟨q, hq, List.suffix_rfl⟩), if_pos (.inl hq)]
  · have hnew : ¬ ∃ e ∈ es, q <:+ e := fun hs => h (not_le.mp hfull) ⟨hq, hs⟩
    rw [if_neg (not_or.mpr ⟨hnew, hfull⟩), if_neg (not_or.mpr ⟨hq, hfull⟩)]

/-- A shadowed address is never added. -/
theorem not_shadowed_of_added (h : insertEntry es q = es ++ [q]) : ¬ Shadowed es q := by
  intro hs
  rw [insertEntry, if_pos (.inl hs.2)] at h
  simpa using congrArg List.length h

/-- What the table is to do: it keeps few, different and terminated entries, answers for the
addresses offered while it had room, and adds the new ones among them. -/
structure TableCorrect (xs : List HostAddress) (query : Bytes) : Prop where
  count : (insertAll xs).count ≤ STORAGE_MAX_LOCAL_IP_ADDRS
  distinct : (insertAll xs).entries.Nodup
  terminated : ∀ i < (insertAll xs).count, 0 ∈ (insertAll xs).slotBytes i
  answers : isLocalHostIp (insertAll xs) query = true ↔ ∃ ys x zs, xs = ys ++ x :: zs ∧
    (insertAll ys).count < STORAGE_MAX_LOCAL_IP_ADDRS ∧ x.text = query
  adds : ∀ ys x zs, xs = ys ++ x :: zs → x.text ∉ (insertAll ys).entries →
    (insertAll ys).count < STORAGE_MAX_LOCAL_IP_ADDRS →
      (insertAll (ys ++ [x])).entries = (insertAll ys).entries ++ [x.text]

/-- No address offered while there is room is shadowed by those before it, nor is the query by
those in the table. -/
structure NoneShadowed (xs : List HostAddress) (query : Bytes) : Prop where
  offers : ∀ ys x zs, xs = ys ++ x :: zs →
    (offered ys).length < STORAGE_MAX_LOCAL_IP_ADDRS → ¬ Shadowed (offered ys) x.text
  query : ¬ Shadowed (offered xs) query

theorem count_insertAll (xs : List HostAddress) :
    (insertAll xs).count = (insertAll xs).entries.length := (holds_insertAll xs).count

/-- The entries are the addresses the table is there for, unless an insertion meets a shadowed
address. -/
theorem entries_eq_offered (h : ∀ ys x zs, xs = ys ++ x :: zs →
    (insertAll ys).entries = offered ys →
    (offered ys).length < STORAGE_MAX_LOCAL_IP_ADDRS → ¬ Shadowed (offered ys) x.text) :
    (insertAll xs).entries = offered xs := by
  induction xs using List.reverseRecOn with
  | nil => exact holds_noHosts.entries_eq
  | append_singleton xs a ih =>
    have hxs : (insertAll xs).entries = offered xs := by
      refine ih fun ys x zs hsplit => h ys x (zs ++ [a]) ?_
      rw [hsplit, List.append_assoc, List.cons_append]
    rw [entries_snoc, offered_snoc, hxs]
    exact insertEntry_eq_offer (h xs a [] rfl hxs)

/-- So they are if every new address is added. -/
theorem entries_of_adds (h : ∀ ys x zs, xs = ys ++ x :: zs → x.text ∉ (insertAll ys).entries →
    (insertAll ys).count < STORAGE_MAX_LOCAL_IP_ADDRS →
      (insertAll (ys ++ [x])).entries = (insertAll ys).entries ++ [x.text]) :
    (insertAll xs).entries = offered xs := by
  refine entries_eq_offered fun ys x zs hsplit hys hroom hs => ?_
  rw [← hys] at hs hroom
  rw [← count_insertAll] at hroom
  have hadd := h ys x zs hsplit hs.1 hroom
  rw [entries_snoc] at hadd
  exact not_shadowed_of_added hadd hs

/-- The table does what it is for if and only if no address is shadowed. -/
theorem tableCorrect_iff (xs : List HostAddress) (query : Bytes) :
    TableCorrect xs query ↔ NoneShadowed xs query := by
  have hlocal : isLocalHostIp (insertAll xs) query = true ↔
      ∃ e ∈ (insertAll xs).entries, query <:+ e := (holds_insertAll xs).isLocalHostIp_iff query
  constructor
  · intro h
    have hall {ys zs : List HostAddress} (hsplit : xs = ys ++ zs) :
        (insertAll ys).entries = offered ys := by
      refine entries_of_adds fun ys' x zs' hsplit' => h.adds ys' x (zs' ++ zs) ?_
      rw [hsplit, hsplit', List.append_assoc, List.cons_append]
    constructor
    · intro ys x zs hsplit hroom hs
      have hys := hall hsplit
      rw [← hys, ← count_insertAll] at hroom
      rw [← hys] at hs
      have hadd := h.adds ys x zs hsplit hs.1 hroom
      rw [entries_snoc] at hadd
      exact not_shadowed_of_added hadd hs
    · rintro ⟨hnew, hs⟩
      rw [← hall (List.append_nil xs).symm, ← hlocal, h.answers] at hs
      obtain ⟨ys, x, zs, hsplit, hroom, hx⟩ := hs
      rw [count_insertAll, hall hsplit] at hroom
      exact hnew (mem_offered.mpr ⟨ys, x, zs, hsplit, hroom, hx⟩)
  · intro h
    have hall {ys zs : List HostAddress} (hsplit : xs = ys ++ zs) :
        (insertAll ys).entries = offered ys := by
      refine entries_eq_offered fun ys' x zs' hsplit' _ => h.offers ys' x (zs' ++ zs) ?_
      rw [hsplit, hsplit', List.append_assoc, List.cons_append]
    have hholds := holds_insertAll xs
    constructor
    · exact hholds.count ▸ hholds.room
    · exact hholds.nodup
    · exact fun i hi => hholds.zero_mem_slotBytes hi
    · have hmem : isLocalHostIp (insertAll xs) query = true ↔ query ∈ offered xs := by
        rw [hlocal, hall (List.append_nil xs).symm]
        constructor
        · intro hs
          by_contra hnew
          exact h.query ⟨hnew, hs⟩
        · exact fun hq => ⟨query, hq, List.suffix_rfl⟩
      rw [hmem, mem_offered]
      refine exists_congr fun ys => exists_congr fun x => exists_congr fun zs => ?_
      refine and_congr_right fun hsplit => ?_
      rw [count_insertAll, hall hsplit]
    · intro ys x zs hsplit hnew hroom
      rw [count_insertAll] at hroom
      have hshadow : ¬ Shadowed (insertAll ys).entries x.text := by
        rw [hall hsplit] at hroom ⊢
        exact h.offers ys x zs hsplit hroom
      have hother : ¬ ∃ e ∈ (insertAll ys).entries, x.text <:+ e := fun hs => hshadow ⟨hnew, hs⟩
      rw [entries_snoc, insertEntry, if_neg (not_or.mpr ⟨hother, not_le.mpr hroom⟩)]

/-- With 110.0.0.1 in the table, the table answers for 10.0.0.1 and does not take it. -/
theorem table_shadows :
    let host : HostAddress := ⟨ascii "110.0.0.1", by decide, by decide⟩
    ¬ TableCorrect [host] (ascii "10.0.0.1") ∧
      (insertIntoLocalHostIp (insertAll [host]) (ascii "10.0.0.1")).2 = 0 := by
  intro host
  refine ⟨fun h => ?_, by decide +kernel⟩
  have hfound : isLocalHostIp (insertAll [host]) (ascii "10.0.0.1") = true := by decide +kernel
  obtain ⟨ys, x, zs, hsplit, -, hx⟩ := h.answers.mp hfound
  have hmem : x ∈ [host] := by
    rw [hsplit]
    simp
  obtain rfl := List.mem_singleton.mp hmem
  revert hx
  decide

end Answers

end DemoStorage.LocalHostTable
