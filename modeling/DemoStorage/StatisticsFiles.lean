import DemoStorage.CounterLifetimes
import DemoStorage.IniLines

/-!
# What a statistics file gives back

A file that was written completely loads the values it was written from. A write truncates the
file first, so one that is interrupted leaves a beginning of the new text: short of its last
number the loader finds too few items and refuses, and behind it the new values are loaded.
-/

namespace DemoStorage.StatisticsFiles
open ByteStrings PosixFileTree MetadataRecords DaemonState ServiceThread IniFiles IniLines
open CounterLifetimes StatisticsSessions

section RoundTrip

/-- All twelve values are those of an `int`. -/
structure AllInts (t : FDFSStorageStat) : Prop where
  counters : Ints t
  source : IsInt t.lastSourceUpdate
  sync : IsInt t.lastSyncUpdate

/-- The statistics as they are printed, the times as an `int`. -/
def printed (t : FDFSStorageStat) : FDFSStorageStat :=
  { t with
    lastSourceUpdate := wrap32 t.lastSourceUpdate
    lastSyncUpdate := wrap32 t.lastSyncUpdate }

theorem printed_eq {t : FDFSStorageStat} (ht : AllInts t) : printed t = t := by
  obtain ⟨h1, h2⟩ := ht.source
  obtain ⟨h3, h4⟩ := ht.sync
  simp only [printed, wrap32_eq h1 h2, wrap32_eq h3 h4]

theorem wrap32_wrap32 (n : ℤ) : wrap32 (wrap32 n) = wrap32 n :=
  wrap32_eq (le_wrap32 n) (wrap32_lt n)

theorem statText_printed (t : FDFSStorageStat) : statText (printed t) = statText t := by
  simp only [statText, statItems, printed, wrap32_wrap32]

/-- The pairs of the text. -/
def statPairs (t : FDFSStorageStat) : List (Bytes × Bytes) :=
  (statItems t).map fun i => (i.1, decimal i.2)

theorem length_iniText_le {ps : List (Bytes × Bytes)} (h : ∀ p ∈ ps, p.2.length ≤ 11) :
    (iniText ps).length ≤ ((ps.map Prod.fst).flatten).length + 13 * ps.length := by
  induction ps with
  | nil => exact Nat.zero_le _
  | cons p ps ih =>
    have hp := h p List.mem_cons_self
    have hps := ih fun p hp => h p (List.mem_cons_of_mem _ hp)
    have hcons : iniText (p :: ps) = p.1 ++ 61 :: (p.2 ++ [10]) ++ iniText ps := rfl
    rw [hcons]
    simp only [List.map_cons, List.flatten_cons, List.length_append, List.length_cons,
      List.length_nil]
    omega

/-- The text and its NUL fit the buffer of 512 bytes. -/
theorem length_statText_lt {t : FDFSStorageStat} (ht : Ints t) : (statText t).length < 512 := by
  have hvalues : ∀ p ∈ statPairs t, p.2.length ≤ 11 := by
    intro p hp
    obtain ⟨i, hi, rfl⟩ := List.mem_map.mp hp
    obtain ⟨hl, hu⟩ := isInt_of_mem_statItems ht hi
    exact length_decimal_le hl hu
  have hlen := length_iniText_le hvalues
  have hnames : ((statPairs t).map Prod.fst).flatten = statNames.flatten := rfl
  have hcount : (statPairs t).length = 12 := rfl
  have hsum : statNames.flatten.length = 236 := by decide +kernel
  rw [hnames, hcount, hsum] at hlen
  rw [statText_eq]
  exact lt_of_le_of_lt hlen (by decide)

theorem length_items (q : IniQsort) {t : FDFSStorageStat} (ht : Ints t) :
    (q.sort (readItems (statText t).length (statText t))).length = STAT_ITEM_COUNT := by
  have hread := readItems_iniText (plainPair_statItems ht) (length_le_iniText _)
  rw [(q.perm _).length_eq, statText_eq]
  exact (List.length_map _).symm.trans (congrArg List.length hread)

theorem readStat_complete (q : IniQsort) {t : FDFSStorageStat} (ht : Ints t) :
    readStat q {} (some (statText t)) = .ok (printed t) := by
  have hload : iniLoadItems q {} (statText t) =
      .ok (q.sort (readItems (statText t).length (statText t))) := rfl
  have hlen := length_items q ht
  simp only [readStat, hload]
  rw [if_neg (by omega), loadStat_statText q ht]
  rfl

/-- A start that reads these statistics writes them at once. -/
theorem storageOpenStorageStat_of_readStat {q : IniQsort} {file : Bytes} {t : FDFSStorageStat}
    (h : readStat q {} (some file) = .ok t) (w : World) :
    storageOpenStorageStat q {} (some file) w =
      ({ w with stat := t, statFile := statText t }, 0) := by
  rw [storageOpenStorageStat, h]
  rfl

/-- What is written of twelve values of an `int` fits the buffer, is loaded unchanged and
written again as the same text. -/
theorem stat_round_trip (q : IniQsort) (w : World) (t : FDFSStorageStat) (ht : AllInts t) :
    (storageWriteToStatFile {} { w with stat := t }).1.statFile = statText t ∧
      (statText t).length < 512 ∧
      storageOpenStorageStat q {} (some (statText t)) w =
        ({ w with stat := t, statFile := statText t }, 0) := by
  have hread := readStat_complete q ht.counters
  rw [printed_eq ht] at hread
  exact ⟨rfl, length_statText_lt ht.counters, storageOpenStorageStat_of_readStat hread w⟩

/-- Extreme values. -/
def extremeStat : FDFSStorageStat :=
  ⟨2147483647, -2147483648, 0, 1, -1, 10, 2147483647, -2147483648, 100, 7, 2147483647, -2147483648⟩

theorem extremeStat_round_trip :
    (storageWriteToStatFile {} { World.initial .empty [] with stat := extremeStat }).1.statFile =
        statText extremeStat ∧
      (statText extremeStat).length < 512 ∧
      storageOpenStorageStat insertionIniQsort {} (some (statText extremeStat))
          (.initial .empty []) =
        ({ World.initial .empty [] with stat := extremeStat, statFile := statText extremeStat },
          0) := by
  refine stat_round_trip insertionIniQsort (.initial .empty []) extremeStat ⟨?_, ?_, ?_⟩
  · intro k
    cases k <;> exact ⟨⟨by decide, by decide⟩, ⟨by decide, by decide⟩⟩
  · exact ⟨by decide, by decide⟩
  · exact ⟨by decide, by decide⟩

end RoundTrip

section Interrupted

/-- The contents of the file before and behind the calls of a write, up to its failure; a process
that is gone leaves one of them, a write that was under way counting as a short one. -/
def fileStages (f : StatFaults) (old buff : Bytes) : List Bytes :=
  let truncated := if f.ftruncate then old else []
  let written := if f.ftruncate then old else if f.lseek then [] else match f.write with
    | some k => buff.take k
    | none => buff
  [old, truncated, written]

/-- A write ends in the last of the stages. -/
theorem storageWriteToFd_statFile (f : StatFaults) (w : World) (buff : Bytes) :
    (storageWriteToFd f w buff).1.statFile = (fileStages f w.statFile buff).getLastD [] := by
  unfold storageWriteToFd fileStages
  split_ifs with ht hl
  · rfl
  · rfl
  · cases f.write <;> rfl
  · cases f.write <;> rfl

/-- Either the write has not begun, or the file is a beginning of the new text. -/
theorem fileStages_cases {f : StatFaults} {old buff file : Bytes}
    (h : file ∈ fileStages f old buff) : file = old ∨ ∃ k, file = buff.take k := by
  simp only [fileStages, List.mem_cons, List.not_mem_nil, or_false] at h
  rcases h with rfl | rfl | rfl
  · exact .inl rfl
  · split_ifs
    · exact .inl rfl
    · exact .inr ⟨0, rfl⟩
  · split_ifs
    · exact .inl rfl
    · exact .inr ⟨0, rfl⟩
    · right
      cases f.write with
      | none => exact ⟨buff.length, (List.take_length).symm⟩
      | some k => exact ⟨k, rfl⟩

/-! A beginning that stops short of the last equals sign has too few items. -/

theorem length_filterMap_lineItem_le (ls : List Bytes) :
    (ls.filterMap lineItem).length ≤ ls.flatten.count 61 := by
  induction ls with
  | nil => exact Nat.le_refl 0
  | cons l ls ih =>
    rw [List.flatten_cons, List.count_append, List.filterMap_cons]
    split
    · omega
    · rename_i i hi
      have hpos := List.count_pos_iff.mpr (mem_of_lineItem hi)
      rw [List.length_cons]
      omega

theorem length_readItems_le (text : Bytes) :
    (readItems text.length text).length ≤ text.count 61 := by
  have h := length_filterMap_lineItem_le (pieces text)
  rwa [flatten_pieces, ← readItems_eq (Nat.le_refl _)] at h

theorem count_iniText {ps : List (Bytes × Bytes)} (hps : ∀ p ∈ ps, PlainPair p) :
    (iniText ps).count 61 = ps.length := by
  have hplain {s : Bytes} (hs : Plain s) : s.count 61 = 0 :=
    List.count_eq_zero.mpr fun h => (isPlain_iff.mp (hs 61 h)).2.2.2 rfl
  induction ps with
  | nil => rfl
  | cons p ps ih =>
    obtain ⟨h1, -, h3, -, -⟩ := hps p List.mem_cons_self
    have hrest := ih fun p hp => hps p (List.mem_cons_of_mem _ hp)
    have hcons : iniText (p :: ps) = p.1 ++ 61 :: (p.2 ++ [10]) ++ iniText ps := rfl
    rw [hcons]
    simp only [List.count_append, List.count_cons, hplain h1, hplain h3, hrest, List.length_cons,
      List.count_nil, beq_self_eq_true, if_true]
    have hnewline : ((10 : Byte) == 61) = false := rfl
    simp [hnewline, Nat.add_comm]

/-- What stands before the last number of the text. -/
def beforeLast (t : FDFSStorageStat) : Bytes :=
  iniText ((statPairs t).take 11) ++ ascii "success_get_meta_count" ++ [61]

/-- The text without the newline at its end. -/
def numbersWritten (t : FDFSStorageStat) : Bytes := beforeLast t ++ decimal t.successGetMetaCount

theorem statText_eq_append (t : FDFSStorageStat) : statText t = numbersWritten t ++ [10] := by
  rw [statText_eq]
  simp [numbersWritten, beforeLast, statPairs, iniText, statItems]

theorem plainPair_statPairs {t : FDFSStorageStat} (ht : Ints t) :
    ∀ p ∈ statPairs t, PlainPair p := plainPair_statItems ht

/-- Eleven equals signs stand before the last one. -/
theorem readStat_short (q : IniQsort) {t : FDFSStorageStat} (ht : Ints t) {k : ℕ}
    (hk : k < (beforeLast t).length) :
    readStat q {} (some ((statText t).take k)) = .error ENOENT := by
  have hhead : beforeLast t =
      iniText ((statPairs t).take 11) ++ ascii "success_get_meta_count" ++ [61] := rfl
  set head := iniText ((statPairs t).take 11) ++ ascii "success_get_meta_count" with hhead'
  have hcount : head.count 61 = 11 := by
    rw [hhead', List.count_append,
      count_iniText fun p hp => plainPair_statPairs ht p (List.mem_of_mem_take hp)]
    have hname : (ascii "success_get_meta_count").count 61 = 0 := by decide
    rw [hname]
    rfl
  have htake : (statText t).take k = head.take k := by
    rw [hhead, List.length_append, List.length_singleton] at hk
    rw [statText_eq_append, numbersWritten, hhead, List.append_assoc, List.append_assoc,
      List.take_append_of_le_length (by omega)]
  have hitems := length_readItems_le ((statText t).take k)
  have hle : (head.take k).count 61 ≤ head.count 61 := (List.take_sublist k head).count_le 61
  have hload : iniLoadItems q {} ((statText t).take k) =
      .ok (q.sort (readItems ((statText t).take k).length ((statText t).take k))) := rfl
  have hlen := (q.perm (readItems ((statText t).take k).length ((statText t).take k))).length_eq
  have htwelve : STAT_ITEM_COUNT = 12 := rfl
  rw [htake] at hitems hlen hload
  rw [htake, readStat, hload]
  dsimp only
  rw [if_pos (by omega)]

/-! The newline at the end may be missing. -/

theorem pieces_line {l : Bytes} (hl : 10 ∉ l) (hlen : l.length < LINE_BUFFER_SIZE - 1)
    (rest : Bytes) : pieces (l ++ 10 :: rest) = (l ++ [10]) :: pieces rest := by
  rw [pieces_step (by simp), fgets_line hl hlen]

theorem pieces_last {l : Bytes} (hne : l ≠ []) (hl : 10 ∉ l)
    (hlen : l.length ≤ LINE_BUFFER_SIZE - 1) : pieces l = [l] := by
  rw [pieces_step hne, fgets_last hl hlen]
  rfl

theorem lineItem_newline {l : Bytes} (h0 : 0 ∉ l) : lineItem (l ++ [10]) = lineItem l := by
  have htrim : trim (l ++ [10]) = trim l := by
    simp [trim, trimRight, isBlank]
  have hzero : 0 ∉ l ++ [10] := by simpa using h0
  unfold lineItem
  rw [cstr_eq_self h0, cstr_eq_self hzero, htrim]

/-- The line of a pair. -/
theorem notMem_pairLine {p : Bytes × Bytes} (hp : PlainPair p) :
    10 ∉ p.1 ++ 61 :: p.2 ∧ 0 ∉ p.1 ++ 61 :: p.2 ∧
      (p.1 ++ 61 :: p.2).length < LINE_BUFFER_SIZE - 1 := by
  obtain ⟨h1, -, h3, h4, h5⟩ := hp
  have hplain {c : Byte} (hc : isPlain c = false) (hne : c ≠ 61) : c ∉ p.1 ++ 61 :: p.2 := by
    intro h
    rcases List.mem_append.mp h with h | h
    · exact absurd (h1 c h) (by simp [hc])
    · rcases List.mem_cons.mp h with h | h
      · exact hne h
      · exact absurd (h3 c h) (by simp [hc])
  have hn : INI_ITEM_NAME_LEN = 64 := rfl
  have hv : INI_ITEM_VALUE_LEN = 128 := rfl
  have hb : LINE_BUFFER_SIZE = 512 := rfl
  refine ⟨hplain rfl (by decide), hplain rfl (by decide), ?_⟩
  simp only [List.length_append, List.length_cons]
  omega

theorem items_without_newline {ps : List (Bytes × Bytes)} (hps : ∀ p ∈ ps, PlainPair p)
    {p : Bytes × Bytes} (hp : PlainPair p) :
    (pieces (iniText ps ++ (p.1 ++ 61 :: p.2))).filterMap lineItem =
      (pieces (iniText ps ++ (p.1 ++ 61 :: p.2 ++ [10]))).filterMap lineItem := by
  induction ps with
  | nil =>
    obtain ⟨hnl, h0, hlen⟩ := notMem_pairLine hp
    have hne : p.1 ++ 61 :: p.2 ≠ [] := by simp
    have hline := pieces_line hnl hlen []
    have hnil : pieces [] = [] := rfl
    rw [iniText, List.flatMap_nil, List.nil_append, List.nil_append, pieces_last hne hnl hlen.le,
      hline, hnil]
    simp only [List.filterMap_cons, lineItem_newline h0]
  | cons x ps ih =>
    obtain ⟨hnl, -, hlen⟩ := notMem_pairLine (hps x List.mem_cons_self)
    have hrest := ih fun p hp => hps p (List.mem_cons_of_mem _ hp)
    have hcons (rest : Bytes) : iniText (x :: ps) ++ rest =
        (x.1 ++ 61 :: x.2) ++ 10 :: (iniText ps ++ rest) := by
      simp [iniText]
    rw [hcons, hcons, pieces_line hnl hlen, pieces_line hnl hlen, List.filterMap_cons,
      List.filterMap_cons, hrest]

theorem readStat_numbersWritten (q : IniQsort) {t : FDFSStorageStat} (ht : Ints t) :
    readStat q {} (some (numbersWritten t)) = .ok (printed t) := by
  have hlast : PlainPair (ascii "success_get_meta_count", decimal t.successGetMetaCount) :=
    plainPair_statPairs ht _ (by simp [statPairs, statItems])
  have hsplit : numbersWritten t = iniText ((statPairs t).take 11) ++
      (ascii "success_get_meta_count" ++ 61 :: decimal t.successGetMetaCount) := by
    simp [numbersWritten, beforeLast]
  have heleven : ∀ p ∈ (statPairs t).take 11, PlainPair p := fun p hp =>
    plainPair_statPairs ht p (List.mem_of_mem_take hp)
  have hitems := items_without_newline heleven hlast
  have hwhole : iniText ((statPairs t).take 11) ++
      (ascii "success_get_meta_count" ++ 61 :: decimal t.successGetMetaCount ++ [10]) =
        statText t := by
    rw [← List.append_assoc, ← hsplit, ← statText_eq_append]
  rw [hwhole, ← hsplit] at hitems
  rw [← readStat_complete q ht, readStat, readStat, iniLoadItems_eq, iniLoadItems_eq, hitems]

/-- A start refuses a file it cannot load and changes nothing. -/
theorem storageOpenStorageStat_of_error {q : IniQsort} {file : Bytes} {e : Errno}
    (h : readStat q {} (some file) = .error e) (w : World) :
    storageOpenStorageStat q {} (some file) w = (w, e) := by
  rw [storageOpenStorageStat, h]

/-- What a start makes of the file that an interrupted write leaves behind: the old values if
nothing was truncated, the new ones if all numbers were written, and no start at all if the text
stops short of its last number. -/
theorem interrupted_write (q : IniQsort) (f : StatFaults) (w : World) (t u : FDFSStorageStat)
    (ht : Ints t) (hu : Ints u) (file : Bytes)
    (hfile : file ∈ fileStages f (statText t) (statText u)) :
    (file = statText t ∧ storageOpenStorageStat q {} (some file) w =
      ({ w with stat := printed t, statFile := statText t }, 0)) ∨
    (file <+: statText u ∧
      (file.length < (beforeLast u).length →
        storageOpenStorageStat q {} (some file) w = (w, ENOENT)) ∧
      ((numbersWritten u).length ≤ file.length →
        storageOpenStorageStat q {} (some file) w =
          ({ w with stat := printed u, statFile := statText u }, 0))) := by
  have hcomplete {v : FDFSStorageStat} (hv : readStat q {} (some file) = .ok (printed v)) :
      storageOpenStorageStat q {} (some file) w =
        ({ w with stat := printed v, statFile := statText v }, 0) := by
    rw [storageOpenStorageStat_of_readStat hv, statText_printed]
  rcases fileStages_cases hfile with rfl | ⟨k, rfl⟩
  · exact .inl ⟨rfl, hcomplete (readStat_complete q ht)⟩
  · right
    have hlen : (statText u).length = (numbersWritten u).length + 1 := by
      rw [statText_eq_append, List.length_append, List.length_singleton]
    have hhead : (beforeLast u).length ≤ (numbersWritten u).length := by
      rw [numbersWritten, List.length_append]
      omega
    rw [List.length_take]
    refine ⟨List.take_prefix _ _, fun hshort => ?_, fun hlong => hcomplete ?_⟩
    · exact storageOpenStorageStat_of_error (readStat_short q hu (by omega)) w
    · rcases Nat.lt_or_ge k (statText u).length with hk | hk
      · have hkeq : k = (numbersWritten u).length := by omega
        rw [hkeq, statText_eq_append, List.take_left]
        exact readStat_numbersWritten q hu
      · rw [List.take_of_length_le hk]
        exact readStat_complete q hu

/-- A later start has the values before the write or those behind it. -/
def Preserved (q : IniQsort) (w : World) (t u : FDFSStorageStat) (file : Bytes) : Prop :=
  let r := storageOpenStorageStat q {} (some file) w
  r.2 = 0 ∧ (r.1.stat = printed t ∨ r.1.stat = printed u)

/-- Eight and twelve requests for metadata, all successful. -/
def eightStat : FDFSStorageStat := ⟨0, 0, 0, 0, 0, 0, 0, 0, 8, 8, 0, 0⟩
def twelveStat : FDFSStorageStat := ⟨0, 0, 0, 0, 0, 0, 0, 0, 12, 12, 0, 0⟩

theorem ints_twelveStat : Ints twelveStat := by
  intro k
  cases k <;> exact ⟨⟨by decide, by decide⟩, ⟨by decide, by decide⟩⟩

theorem ints_eightStat : Ints eightStat := by
  intro k
  cases k <;> exact ⟨⟨by decide, by decide⟩, ⟨by decide, by decide⟩⟩

/-- A process gone behind `ftruncate`, and one gone in the middle of the last number. -/
theorem interrupted_write_loses :
    (∃ file ∈ fileStages {} (statText eightStat) (statText twelveStat),
      ¬ Preserved insertionIniQsort (.initial .empty []) eightStat twelveStat file) ∧
    ∃ k, ∃ file ∈ fileStages { write := some k } (statText eightStat) (statText twelveStat),
      ¬ Preserved insertionIniQsort (.initial .empty []) eightStat twelveStat file := by
  constructor
  · refine ⟨[], by simp [fileStages], ?_⟩
    rintro ⟨hzero, -⟩
    have hempty : readStat insertionIniQsort {} (some []) = .error ENOENT :=
      readStat_short insertionIniQsort ints_twelveStat (k := 0) (by decide +kernel)
    rw [storageOpenStorageStat_of_error hempty] at hzero
    exact absurd hzero (by decide)
  · refine ⟨(beforeLast twelveStat).length + 1,
      (statText twelveStat).take ((beforeLast twelveStat).length + 1), by simp [fileStages], ?_⟩
    rintro ⟨-, hstat⟩
    revert hstat
    decide +kernel

/-- A write that stops behind 200 bytes. -/
theorem twelveStat_interrupted :
    let file := (statText twelveStat).take 200
    (file = statText eightStat ∧ storageOpenStorageStat insertionIniQsort {} (some file)
        (.initial .empty []) =
      ({ World.initial .empty [] with
          stat := printed eightStat, statFile := statText eightStat }, 0)) ∨
    (file <+: statText twelveStat ∧
      (file.length < (beforeLast twelveStat).length →
        storageOpenStorageStat insertionIniQsort {} (some file) (.initial .empty []) =
          (.initial .empty [], ENOENT)) ∧
      ((numbersWritten twelveStat).length ≤ file.length →
        storageOpenStorageStat insertionIniQsort {} (some file) (.initial .empty []) =
          ({ World.initial .empty [] with
              stat := printed twelveStat, statFile := statText twelveStat }, 0))) :=
  interrupted_write insertionIniQsort { write := some 200 } (.initial .empty []) eightStat
    twelveStat ints_eightStat ints_twelveStat _ (by simp [fileStages])

end Interrupted

end DemoStorage.StatisticsFiles
