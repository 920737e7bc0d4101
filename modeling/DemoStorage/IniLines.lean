import DemoStorage.CutLists
import DemoStorage.IniFiles

/-!
# Lines and the pieces they are read in

The line buffer holds 511 bytes, so a longer line comes in several pieces, and each piece is
treated like a line of its own: the rest of a long comment can be an item. The items of a file
are those of its lines exactly when cutting the long ones adds and loses none.
-/

namespace DemoStorage.IniLines
open ByteStrings CutLists PosixFileTree MetadataRecords DaemonState IniFiles

section Lines

/-- The physical lines of a text, each with the newline that ends it. -/
def lines : Bytes → List Bytes
  | [] => []
  | c :: s =>
    if c = 10 then [10] :: lines s
    else match lines s with
      | [] => [[c]]
      | l :: ls => (c :: l) :: ls

theorem lines_append {l : Bytes} (hl : 10 ∉ l) (rest : Bytes) :
    lines (l ++ 10 :: rest) = (l ++ [10]) :: lines rest := by
  induction l with
  | nil => rfl
  | cons c l ih =>
    obtain ⟨hc, hl⟩ : 10 ≠ c ∧ 10 ∉ l := by simpa using hl
    rw [List.cons_append, lines, if_neg (Ne.symm hc), ih hl]
    rfl

theorem lines_of_notMem {l : Bytes} (hne : l ≠ []) (hl : 10 ∉ l) : lines l = [l] := by
  induction l with
  | nil => exact absurd rfl hne
  | cons c l ih =>
    obtain ⟨hc, hl⟩ : 10 ≠ c ∧ 10 ∉ l := by simpa using hl
    rw [lines, if_neg (Ne.symm hc)]
    cases l with
    | nil => rfl
    | cons d l => rw [ih (List.cons_ne_nil _ _) hl]

end Lines

section Pieces

/-- Without a newline in reach the buffer is filled. -/
theorem fgets_full {a : Bytes} (ha : 10 ∉ a) (rest : Bytes) :
    fgets a.length (a ++ rest) = (a, rest) := by
  induction a with
  | nil => rfl
  | cons c a ih =>
    obtain ⟨hc, ha⟩ : 10 ≠ c ∧ 10 ∉ a := by simpa using ha
    rw [List.length_cons, List.cons_append, fgets, if_neg (Ne.symm hc), ih ha]

/-- The last line may have no newline. -/
theorem fgets_last {k : ℕ} {l : Bytes} (hl : 10 ∉ l) (hk : l.length ≤ k) :
    fgets k l = (l, []) := by
  induction l generalizing k with
  | nil => cases k <;> rfl
  | cons c l ih =>
    cases k with
    | zero => cases hk
    | succ k =>
      obtain ⟨hc, hl⟩ : 10 ≠ c ∧ 10 ∉ l := by simpa using hl
      rw [fgets, if_neg (Ne.symm hc), ih hl (Nat.le_of_succ_le_succ hk)]

theorem fgets_long {k : ℕ} {l : Bytes} (hl : 10 ∉ l) (hk : k ≤ l.length) (rest : Bytes) :
    fgets k (l ++ rest) = (l.take k, l.drop k ++ rest) := by
  have hfull := fgets_full (a := l.take k) (fun h => hl (List.mem_of_mem_take h)) (l.drop k ++ rest)
  rwa [List.length_take_of_le hk, ← List.append_assoc, List.take_append_drop] at hfull

/-- The pieces of a text as the line buffer takes them. -/
def pieces (text : Bytes) : List Bytes := (lines text).flatMap (cutEvery (LINE_BUFFER_SIZE - 1))

/-- Each call of `fgets` takes one piece off the text. -/
theorem pieces_step {text : Bytes} (hne : text ≠ []) :
    pieces text = (fgets (LINE_BUFFER_SIZE - 1) text).1 ::
      pieces (fgets (LINE_BUFFER_SIZE - 1) text).2 := by
  have hsize : LINE_BUFFER_SIZE - 1 = 511 := rfl
  rw [pieces, hsize]
  by_cases hnl : 10 ∈ text
  · obtain ⟨l, rest, rfl, hl⟩ := List.eq_append_cons_of_mem hnl
    rw [lines_append hl, List.flatMap_cons]
    by_cases hlen : l.length < 511
    · rw [fgets_line hl hlen, cutEvery_short (by simp) (by simpa using hlen)]
      rfl
    · have hdrop : 10 ∉ l.drop 511 := fun h => hl (List.mem_of_mem_drop h)
      rw [fgets_long hl (by omega), cutEvery_long (by decide) (by simp; omega),
        List.take_append_of_le_length (by omega), List.drop_append_of_le_length (by omega),
        List.cons_append]
      simp only [pieces, lines_append hdrop, List.flatMap_cons, hsize]
  · rw [lines_of_notMem hne hnl, List.flatMap_singleton]
    by_cases hlen : text.length ≤ 511
    · rw [fgets_last hnl hlen, cutEvery_short hne hlen]
      rfl
    · have hdrop : 10 ∉ text.drop 511 := fun h => hnl (List.mem_of_mem_drop h)
      have hread := fgets_long hnl (k := 511) (by omega) []
      rw [List.append_nil, List.append_nil] at hread
      have hleft : text.drop 511 ≠ [] := by simpa using hlen
      rw [hread, cutEvery_long (by decide) (by omega)]
      simp only [pieces, lines_of_notMem hleft hdrop, List.flatMap_singleton, hsize]

theorem length_fgets (k : ℕ) (text : Bytes) :
    (fgets k text).1.length + (fgets k text).2.length = text.length := by
  induction k generalizing text with
  | zero => exact Nat.zero_add _
  | succ k ih =>
    cases text with
    | nil => rfl
    | cons c s =>
      rw [fgets]
      split_ifs with hc
      · simp [Nat.add_comm]
      · have hs := ih s
        simp only [List.length_cons]
        omega

theorem fgets_ne_nil {k : ℕ} (hk : 0 < k) {text : Bytes} (hne : text ≠ []) :
    (fgets k text).1 ≠ [] := by
  obtain ⟨c, s, rfl⟩ := List.exists_cons_of_ne_nil hne
  obtain ⟨k, rfl⟩ := Nat.exists_eq_add_one_of_ne_zero hk.ne'
  rw [fgets]
  split_ifs <;> exact List.cons_ne_nil _ _

/-- The items of a text are those of its pieces. -/
theorem readItems_eq {fuel : ℕ} {text : Bytes} (hfuel : text.length ≤ fuel) :
    readItems fuel text = (pieces text).filterMap lineItem := by
  induction fuel generalizing text with
  | zero =>
    obtain rfl := List.length_eq_zero_iff.mp (Nat.le_zero.mp hfuel)
    rfl
  | succ fuel ih =>
    by_cases hne : text = []
    · subst hne
      rfl
    · have hsum := length_fgets (LINE_BUFFER_SIZE - 1) text
      have hbuffer : 0 < LINE_BUFFER_SIZE - 1 := by decide
      have hpos := List.length_pos_iff.mpr (fgets_ne_nil hbuffer hne)
      rw [readItems, if_neg hne, pieces_step hne, List.filterMap_cons]
      dsimp only
      rw [ih (by omega)]
      cases lineItem (fgets (LINE_BUFFER_SIZE - 1) text).1 <;> rfl

end Pieces

section Settings

/-- What a physical line sets, cut to the arrays of an item: a name and a value. -/
def lineSetting (line : Bytes) : Option (Bytes × Bytes) :=
  let s := trim line
  if s = [] ∨ s.head? = some 35 ∨ 61 ∉ s then none
  else some (trim ((s.takeWhile (· ≠ 61)).take INI_ITEM_NAME_LEN),
    trim ((s.dropWhile (· ≠ 61)).tail.take INI_ITEM_VALUE_LEN))

/-- Name and value of an item. -/
def setting (i : IniItemInfo) : Bytes × Bytes := (i.name, i.value)

theorem mem_of_mem_trim {c : Byte} {s : Bytes} (h : c ∈ trim s) : c ∈ s := by
  have hleft := (List.dropWhile_sublist isBlank).subset h
  have hright := (List.dropWhile_sublist isBlank).subset (List.mem_reverse.mp hleft)
  exact List.mem_reverse.mp hright

/-- The item of a piece is what the piece sets. -/
theorem map_setting_lineItem {line : Bytes} (h0 : 0 ∉ line) :
    (lineItem line).map setting = lineSetting line := by
  have hs0 : 0 ∉ trim line := fun h => h0 (mem_of_mem_trim h)
  unfold lineItem lineSetting
  rw [cstr_eq_self h0]
  generalize trim line = s at hs0
  dsimp only
  by_cases hskip : s.head? = some 35 ∨ s = []
  · rw [if_pos hskip, if_pos (by tauto)]
    rfl
  · rw [if_neg hskip]
    cases hchr : strchr 61 s with
    | none =>
      have hmem := strchr_eq_none hchr
      rw [cstr_eq_self hs0] at hmem
      rw [if_pos (.inr (.inr hmem))]
      rfl
    | some r =>
      obtain ⟨hs, -, hc⟩ := strchr_eq_some hchr
      have hmem : 61 ∈ s := by simp [hs]
      have hbefore : ∀ x ∈ r.1, decide (x ≠ 61) = true := by
        intro x hx
        exact decide_eq_true fun he => hc (he ▸ hx)
      have htake : s.takeWhile (· ≠ 61) = r.1 := by
        rw [hs, List.takeWhile_append_of_pos hbefore]
        simp
      have hdrop : (s.dropWhile (· ≠ 61)).tail = r.2 := by
        rw [hs, List.dropWhile_append_of_pos hbefore]
        simp
      rw [if_neg (by tauto), htake, hdrop]
      rfl

theorem lines_flatten (text : Bytes) : (lines text).flatten = text := by
  induction text with
  | nil => rfl
  | cons c s ih =>
    rw [lines]
    split_ifs with hc
    · rw [List.flatten_cons, ih, hc]
      rfl
    · split
      · rename_i h
        rw [h] at ih
        rw [← ih]
        rfl
      · rename_i l ls h
        rw [h] at ih
        rw [← ih]
        rfl

theorem ne_nil_of_mem_lines {text l : Bytes} (hl : l ∈ lines text) : l ≠ [] := by
  induction text generalizing l with
  | nil => cases hl
  | cons c s ih =>
    rw [lines] at hl
    split_ifs at hl with hc
    · rcases List.mem_cons.mp hl with rfl | hl
      · exact List.cons_ne_nil _ _
      · exact ih hl
    · split at hl
      · rw [List.mem_singleton.mp hl]
        exact List.cons_ne_nil _ _
      · rename_i k ks h
        rcases List.mem_cons.mp hl with rfl | hl
        · exact List.cons_ne_nil _ _
        · exact ih (h ▸ List.mem_cons_of_mem _ hl)

/-- An item has an equals sign in its piece. -/
theorem mem_of_lineItem {line : Bytes} {i : IniItemInfo} (h : lineItem line = some i) :
    61 ∈ line := by
  unfold lineItem at h
  dsimp only at h
  split_ifs at h
  obtain ⟨r, hr, -⟩ := Option.map_eq_some_iff.mp h
  obtain ⟨hs, -, -⟩ := strchr_eq_some hr
  have hmem : 61 ∈ trim (cstr line) := by simp [hs]
  exact mem_of_mem_cstr (mem_of_mem_trim hmem)

end Settings

section Loading

/-- Every physical line that sets something is an item, nothing else is, and the items are sorted
by name. -/
def LinesLoaded (q : IniQsort) (text : Bytes) : Prop :=
  ∃ items, iniLoadItems q {} text = .ok items ∧
    (items.map setting).Perm ((lines text).filterMap lineSetting) ∧
    items.Pairwise fun a b => compareByItemName a b

/-- The lines that do not fit the line buffer. -/
def longLines (text : Bytes) : List Bytes :=
  (lines text).filter fun l => LINE_BUFFER_SIZE - 1 < l.length

def shortLines (text : Bytes) : List Bytes :=
  (lines text).filter fun l => !decide (LINE_BUFFER_SIZE - 1 < l.length)

theorem lines_perm (text : Bytes) : (longLines text ++ shortLines text).Perm (lines text) :=
  List.filter_append_perm _ _

/-- A line that fits is its own piece. -/
theorem cut_shortLines (text : Bytes) :
    (shortLines text).flatMap (cutEvery (LINE_BUFFER_SIZE - 1)) = shortLines text := by
  have hcut : ∀ l ∈ shortLines text, cutEvery (LINE_BUFFER_SIZE - 1) l = [l] := by
    intro l hl
    obtain ⟨hmem, hlen⟩ := List.mem_filter.mp hl
    exact cutEvery_short (ne_nil_of_mem_lines hmem) (by simpa using hlen)
  rw [List.flatMap_congr hcut, List.flatMap_singleton']

theorem pieces_perm (text : Bytes) :
    (pieces text).Perm ((longLines text).flatMap (cutEvery (LINE_BUFFER_SIZE - 1)) ++
      shortLines text) := by
  have hperm := (lines_perm text).symm.flatMap_right (cutEvery (LINE_BUFFER_SIZE - 1))
  rwa [List.flatMap_append, cut_shortLines] at hperm

/-- Together the pieces are the text. -/
theorem flatten_pieces (text : Bytes) : (pieces text).flatten = text := by
  have hcut (ls : List Bytes) :
      (ls.flatMap (cutEvery (LINE_BUFFER_SIZE - 1))).flatten = ls.flatten := by
    induction ls with
    | nil => rfl
    | cons l ls ih =>
      rw [List.flatMap_cons, List.flatten_append, ih, cutEvery_flatten (by decide),
        List.flatten_cons]
  rw [pieces, hcut, lines_flatten]

theorem mem_of_mem_pieces {text l : Bytes} (hl : l ∈ pieces text) {c : Byte} (hc : c ∈ l) :
    c ∈ text := by
  rw [← flatten_pieces text]
  exact List.mem_flatten.mpr ⟨l, hl, hc⟩

/-- The items of a file, whatever the length of its lines. -/
theorem iniLoadItems_eq (q : IniQsort) (text : Bytes) :
    iniLoadItems q {} text = .ok (q.sort ((pieces text).filterMap lineItem)) := by
  simp only [iniLoadItems, readItems_eq (Nat.le_refl _)]

theorem setting_items (q : IniQsort) {text : Bytes} (h0 : 0 ∉ text) :
    ((q.sort ((pieces text).filterMap lineItem)).map setting).Perm
      ((pieces text).filterMap lineSetting) := by
  refine ((q.perm _).map setting).trans (.of_eq ?_)
  rw [List.map_filterMap]
  exact List.filterMap_congr fun l hl => map_setting_lineItem fun hz => h0 (mem_of_mem_pieces hl hz)

/-- A file is loaded line by line exactly when the pieces of its long lines set what these
lines set. -/
theorem lines_loaded_iff (q : IniQsort) (text : Bytes) (h0 : 0 ∉ text) :
    LinesLoaded q text ↔
      (((longLines text).flatMap (cutEvery (LINE_BUFFER_SIZE - 1))).filterMap lineSetting).Perm
        ((longLines text).filterMap lineSetting) := by
  have hitems := setting_items q h0
  have hpieces := (pieces_perm text).filterMap lineSetting
  have hlines := (lines_perm text).filterMap lineSetting
  rw [List.filterMap_append] at hpieces hlines
  rw [← List.perm_append_right_iff ((shortLines text).filterMap lineSetting)]
  constructor
  · rintro ⟨items, hload, hperm, -⟩
    rw [iniLoadItems_eq] at hload
    obtain rfl := Except.ok.inj hload
    exact (hpieces.symm.trans hitems.symm).trans (hperm.trans hlines.symm)
  · intro hperm
    exact ⟨_, iniLoadItems_eq q text, hitems.trans (hpieces.trans (hperm.trans hlines)), q.sorted _⟩

/-- A long comment without a separator, and a setting with a value that is cut anyway. -/
def longProse : Bytes :=
  35 :: (List.replicate 600 99 ++ ascii "\nport = 2\nbase_path = ") ++ List.replicate 600 112 ++ [10]

theorem longProse_loaded : (longLines longProse).length = 2 ∧
    LinesLoaded insertionIniQsort longProse := by
  refine ⟨by decide +kernel, ?_⟩
  refine (lines_loaded_iff insertionIniQsort longProse (by decide +kernel)).mpr ?_
  decide +kernel

/-- A comment that fills the buffer, so that its rest is read as a line. -/
def longComment : Bytes := 35 :: (List.replicate 510 99 ++ ascii "port=1\n")

theorem longComment_not_loaded : 0 ∉ longComment ∧ ¬ LinesLoaded insertionIniQsort longComment := by
  refine ⟨by decide +kernel, ?_⟩
  rintro ⟨items, hload, hperm, -⟩
  have hnone : (lines longComment).filterMap lineSetting = [] := by decide +kernel
  have hlen : (iniLoadItems insertionIniQsort {} longComment).toOption.map List.length =
      some 1 := by decide +kernel
  rw [hload] at hlen
  rw [hnone] at hperm
  have hitems := hperm.length_eq
  rw [List.length_map, Option.some.inj hlen] at hitems
  cases hitems

end Loading

end DemoStorage.IniLines
