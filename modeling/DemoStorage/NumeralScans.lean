import DemoStorage.ByteStrings

/-!
# How far `strtol` looks

`strtol` has no length: it stops at the first byte that cannot continue its number. A text is
open when it stops at none of the text's bytes, so that it looks at the byte behind them and
its result depends on that byte.
-/

namespace DemoStorage.NumeralScans
open ByteStrings

theorem afterDigits_eq_nil {base : ℕ} {s : Bytes} :
    afterDigits base s = [] ↔ ∀ c ∈ s, (digitValue base c).isSome := by
  induction s with
  | nil => simp [afterDigits]
  | cons c s ih =>
    simp only [afterDigits, List.forall_mem_cons]
    split
    · rename_i hd
      simp [hd, ih]
    · rename_i hd
      simp [hd]

theorem leadingDigits_append_cons {base : ℕ} {q : Bytes} (hq : afterDigits base q = []) {c x : Byte}
    {d : ℕ} (hc : digitValue base c = some d) (hx : digitValue base x = none) (t : Bytes) :
    leadingDigits base (q ++ c :: x :: t) = leadingDigits base q ++ [d] := by
  induction q with
  | nil => simp [leadingDigits, hc, hx]
  | cons a q ih =>
    obtain ⟨ha, hq⟩ := List.forall_mem_cons.mp (afterDigits_eq_nil.mp hq)
    obtain ⟨v, hv⟩ := Option.isSome_iff_exists.mp ha
    simp [leadingDigits, hv, ih (afterDigits_eq_nil.mpr hq)]

theorem digitValue_lt {base : ℕ} {c : Byte} {d : ℕ} (h : digitValue base c = some d) :
    d < base := by
  unfold digitValue at h
  extract_lets v at h
  split at h
  · rename_i hv
    exact Option.some.inj h ▸ hv
  · cases h

theorem digitsToNat_snoc (base : ℕ) (ds : List ℕ) (d : ℕ) :
    digitsToNat base (ds ++ [d]) = digitsToNat base ds * base + d := by
  simp [digitsToNat, List.foldl_append]

theorem length_leadingDigits_le (base : ℕ) (s : Bytes) :
    (leadingDigits base s).length ≤ s.length := by
  induction s with
  | nil => simp [leadingDigits]
  | cons c s ih =>
    simp only [leadingDigits]
    split <;> simp
    exact ih

theorem leadingDigits_lt (base : ℕ) (s : Bytes) : ∀ d ∈ leadingDigits base s, d < base := by
  induction s with
  | nil => simp [leadingDigits]
  | cons c s ih =>
    simp only [leadingDigits]
    split
    · rename_i hd
      intro e he
      rcases List.mem_cons.mp he with rfl | he
      · exact digitValue_lt hd
      · exact ih e he
    · simp

/-- The digits stop before a NUL. -/
theorem length_leadingDigits_lt {s : Bytes} (h : 0 ∈ s) :
    (leadingDigits 16 s).length < s.length := by
  induction s with
  | nil => cases h
  | cons c s ih =>
    simp only [leadingDigits]
    split
    · rename_i hd
      rcases List.mem_cons.mp h with rfl | h
      · cases hd
      · simpa using ih h
    · simp

/-- Digits of a numeral in base 16 give a number of as many hexadecimal places. -/
theorem digitsToNat_lt_of_digits {s : Bytes} {k : ℕ} (hk : (leadingDigits 16 s).length ≤ k) :
    digitsToNat 16 (leadingDigits 16 s) < 16 ^ k := by
  have hlt := leadingDigits_lt 16 s
  rw [digitsToNat_eq]
  calc Nat.ofDigits 16 (leadingDigits 16 s).reverse
      < 16 ^ (leadingDigits 16 s).reverse.length := Nat.ofDigits_lt_base_pow_length (by decide)
        fun d hd => hlt d (List.mem_reverse.mp hd)
    _ ≤ 16 ^ k := Nat.pow_le_pow_right (by decide) (by rwa [List.length_reverse])

theorem digitsToNat_lt {s : Bytes} {k : ℕ} (hk : s.length ≤ k) :
    digitsToNat 16 (leadingDigits 16 s) < 16 ^ k :=
  digitsToNat_lt_of_digits ((length_leadingDigits_le 16 s).trans hk)

/-- What a text holds behind its blanks and its sign. -/
def unsignedPart (s : Bytes) : Bytes := (takeSign (s.dropWhile isSpace)).2

/-- Whether a number is written with a minus sign. -/
def negative (s : Bytes) : Bool := (takeSign (s.dropWhile isSpace)).1

/-- The number behind the sign. -/
def magnitude (s : Bytes) : ℕ :=
  digitsToNat 16 (leadingDigits 16 (dropHexPrefix 16 (unsignedPart s)))

theorem strtol_eq (s : Bytes) :
    strtol 16 s = clampLong (if negative s then -(magnitude s : ℤ) else magnitude s) := rfl

/-- `strtol` in base 16 stops at no byte of the text and looks at the one behind it. -/
def NumeralOpen (s : Bytes) : Prop :=
  afterDigits 16 (dropHexPrefix 16 (unsignedPart s)) = [] ∨
    unsignedPart s = [48, 120] ∨ unsignedPart s = [48, 88]

instance (s : Bytes) : Decidable (NumeralOpen s) := inferInstanceAs (Decidable (_ ∨ _ ∨ _))

theorem numeralOpen_nil : NumeralOpen [] := Or.inl rfl

/-- Once a byte that is no blank has come, the sign is settled. -/
theorem takeSign_dropWhile_append {s : Bytes} (h : s.dropWhile isSpace ≠ []) (t : Bytes) :
    takeSign ((s ++ t).dropWhile isSpace) = (negative s, unsignedPart s ++ t) := by
  have hdrop : (s ++ t).dropWhile isSpace = s.dropWhile isSpace ++ t := by
    rw [List.dropWhile_append, if_neg (by simpa using h)]
  rw [hdrop, takeSign_append h]
  rfl

theorem unsignedPart_append {s : Bytes} (h : s.dropWhile isSpace ≠ []) (t : Bytes) :
    unsignedPart (s ++ t) = unsignedPart s ++ t := by
  rw [unsignedPart, takeSign_dropWhile_append h]

theorem negative_append {s : Bytes} (h : s.dropWhile isSpace ≠ []) (t : Bytes) :
    negative (s ++ t) = negative s := by
  rw [negative, takeSign_dropWhile_append h]

theorem unsignedPart_of_blank {s : Bytes} (h : s.dropWhile isSpace = []) : unsignedPart s = [] := by
  rw [unsignedPart, h]
  rfl

theorem dropHexPrefix_of_first {c : Byte} (h : c ≠ 48) (s : Bytes) :
    dropHexPrefix 16 (c :: s) = c :: s := by
  unfold dropHexPrefix
  split
  · rename_i he
    exact absurd (List.cons.inj he).1 h
  · rfl

theorem dropHexPrefix_of_second {c x : Byte} (hx : x ≠ 120) (hX : x ≠ 88) (s : Bytes) :
    dropHexPrefix 16 (c :: x :: s) = c :: x :: s := by
  unfold dropHexPrefix
  split
  · rename_i he
    obtain ⟨-, he⟩ := List.cons.inj he
    obtain ⟨rfl, -⟩ := List.cons.inj he
    rw [if_neg fun hc => hc.2.1.elim hx hX]
    symm
    assumption
  · rfl

theorem dropHexPrefix_zero (x d : Byte) (s : Bytes) : dropHexPrefix 16 (48 :: x :: d :: s) =
    if (16 : ℕ) = 16 ∧ (x = 120 ∨ x = 88) ∧ (digitValue 16 d).isSome then d :: s
    else 48 :: x :: d :: s := rfl

/-- Behind two bytes, or where no prefix can begin, what follows does not matter. -/
theorem dropHexPrefix_append {r : Bytes} (h0 : r ≠ []) (h1 : r ≠ [48]) (hx : r ≠ [48, 120])
    (hX : r ≠ [48, 88]) (t : Bytes) :
    dropHexPrefix 16 (r ++ t) = dropHexPrefix 16 r ++ t := by
  obtain ⟨c, r, rfl⟩ := List.exists_cons_of_ne_nil h0
  by_cases hc : c = 48
  · subst hc
    match r with
    | [] => exact absurd rfl h1
    | [x] =>
      have hne : x ≠ 120 := fun he => hx (by rw [he])
      have hNe : x ≠ 88 := fun he => hX (by rw [he])
      rw [List.cons_append, List.cons_append, dropHexPrefix_of_second hne hNe,
        dropHexPrefix_of_second hne hNe]
      rfl
    | x :: d :: s =>
      simp only [List.cons_append, dropHexPrefix_zero]
      split <;> rfl
  · rw [List.cons_append, dropHexPrefix_of_first hc, dropHexPrefix_of_first hc]
    rfl

/-- A byte that ends the number is among those of a text that is not open. -/
theorem not_open_iff {s : Bytes} : ¬ NumeralOpen s ↔
    afterDigits 16 (dropHexPrefix 16 (unsignedPart s)) ≠ [] ∧
      unsignedPart s ≠ [48, 120] ∧ unsignedPart s ≠ [48, 88] := by
  unfold NumeralOpen
  push Not
  exact Iff.rfl

theorem unsignedPart_of_not_open {s : Bytes} (h : ¬ NumeralOpen s) :
    s.dropWhile isSpace ≠ [] ∧ unsignedPart s ≠ [] ∧ unsignedPart s ≠ [48] := by
  have hdigits := (not_open_iff.mp h).1
  have hne : unsignedPart s ≠ [] := by
    intro he
    exact hdigits (by rw [he]; rfl)
  refine ⟨fun he => hne (unsignedPart_of_blank he), hne, fun he => hdigits ?_⟩
  rw [he]
  rfl

/-- The parts of a number whose end has been seen stay as they are. -/
theorem dropHexPrefix_unsignedPart_append {s : Bytes} (h : ¬ NumeralOpen s) (t : Bytes) :
    dropHexPrefix 16 (unsignedPart (s ++ t)) = dropHexPrefix 16 (unsignedPart s) ++ t := by
  obtain ⟨-, hx, hX⟩ := not_open_iff.mp h
  obtain ⟨hdrop, hne, hzero⟩ := unsignedPart_of_not_open h
  rw [unsignedPart_append hdrop, dropHexPrefix_append hne hzero hx hX]

/-- What stands behind the end of a number does not change it. -/
theorem strtol_append_of_not_open {s : Bytes} (h : ¬ NumeralOpen s) (t : Bytes) :
    strtol 16 (s ++ t) = strtol 16 s := by
  have hmagnitude : magnitude (s ++ t) = magnitude s := by
    rw [magnitude, dropHexPrefix_unsignedPart_append h, leadingDigits_append (not_open_iff.mp h).1]
    rfl
  rw [strtol_eq, strtol_eq, negative_append (unsignedPart_of_not_open h).1, hmagnitude]

/-- A NUL is neither a blank nor a sign nor part of a prefix. -/
theorem zero_mem_digits {s : Bytes} (h : 0 ∈ s) : 0 ∈ dropHexPrefix 16 (unsignedPart s) := by
  have hdrop : 0 ∈ s.dropWhile isSpace := by
    rw [← List.takeWhile_append_dropWhile (p := isSpace) (l := s)] at h
    rcases List.mem_append.mp h with hm | hm
    · exact absurd (List.all_eq_true.mp List.all_takeWhile 0 hm) (by decide)
    · exact hm
  have hsign : 0 ∈ unsignedPart s := by
    unfold unsignedPart takeSign
    split
    · rename_i he
      rw [he] at hdrop
      exact (List.mem_cons.mp hdrop).resolve_left (by decide)
    · rename_i he
      rw [he] at hdrop
      exact (List.mem_cons.mp hdrop).resolve_left (by decide)
    · exact hdrop
  generalize unsignedPart s = r at hsign
  unfold dropHexPrefix
  split
  · split
    · rename_i hc
      refine ((List.mem_cons.mp hsign).resolve_left (by decide) |> List.mem_cons.mp).resolve_left ?_
      rintro rfl
      exact hc.2.1.elim (by decide) (by decide)
    · exact hsign
  · exact hsign

/-- The NUL behind a text ends every number in it. -/
theorem not_open_of_zero_mem {s : Bytes} (h : 0 ∈ s) : ¬ NumeralOpen s := by
  have hhex := zero_mem_digits h
  refine not_open_iff.mpr ⟨fun he => ?_, fun he => ?_, fun he => ?_⟩
  · exact absurd (afterDigits_eq_nil.mp he 0 hhex) (by decide)
  · exact absurd (he ▸ hhex) (by decide)
  · exact absurd (he ▸ hhex) (by decide)

section Continuations

/-- A digit is neither a blank nor a sign nor the letter of a prefix. -/
theorem digit_plain {c : Byte} {d : ℕ} (h : digitValue 16 c = some d) :
    isSpace c = false ∧ c ≠ 43 ∧ c ≠ 45 ∧ c ≠ 120 ∧ c ≠ 88 := by
  have hne {x : Byte} (hx : digitValue 16 x = none) : c ≠ x := by
    rintro rfl
    rw [hx] at h
    cases h
  have hspace : isSpace c = false := by
    by_contra hs
    simp only [isSpace, Bool.not_eq_false, Bool.or_eq_true, decide_eq_true_eq, Bool.and_eq_true] at hs
    have hlow : c.toNat ≤ 32 := by
      rcases hs with rfl | ⟨-, hs⟩
      · decide
      · exact (UInt8.le_iff_toNat_le.mp hs).trans (by decide)
    have hbelow {x : Byte} (hx : 32 < x.toNat) : ¬ x ≤ c := by
      rw [UInt8.le_iff_toNat_le]
      omega
    have hnone : digitValue 16 c = none := by
      have h1 : ¬ (48 ≤ c ∧ c ≤ 57) := fun hc => hbelow (by decide) hc.1
      have h2 : ¬ (97 ≤ c ∧ c ≤ 122) := fun hc => hbelow (by decide) hc.1
      have h3 : ¬ (65 ≤ c ∧ c ≤ 90) := fun hc => hbelow (by decide) hc.1
      simp [digitValue, h1, h2, h3]
    rw [hnone] at h
    cases h
  exact ⟨hspace, hne (by decide), hne (by decide), hne (by decide), hne (by decide)⟩

theorem takeSign_digit {c : Byte} {d : ℕ} (h : digitValue 16 c = some d) (t : Bytes) :
    takeSign (c :: t) = (false, c :: t) := by
  obtain ⟨-, hplus, hminus, -, -⟩ := digit_plain h
  unfold takeSign
  split
  · rename_i he
    exact absurd (List.cons.inj he).1 hminus
  · rename_i he
    exact absurd (List.cons.inj he).1 hplus
  · rfl

/-- A digit behind any text joins its number and leaves its sign. -/
theorem sign_append_digit (s : Bytes) {c : Byte} {d : ℕ} (h : digitValue 16 c = some d)
    (t : Bytes) : negative (s ++ c :: t) = negative s ∧
      unsignedPart (s ++ c :: t) = unsignedPart s ++ c :: t := by
  by_cases hs : s.dropWhile isSpace = []
  · have hdrop : (s ++ c :: t).dropWhile isSpace = c :: t := by
      rw [List.dropWhile_append, if_pos (by simpa using hs),
        List.dropWhile_cons_of_neg (by simp [(digit_plain h).1])]
    rw [unsignedPart_of_blank hs, unsignedPart, negative, negative, hdrop, takeSign_digit h, hs]
    exact ⟨rfl, rfl⟩
  · exact ⟨negative_append hs _, unsignedPart_append hs _⟩

theorem dropHexPrefix_append_digit {r : Bytes} (hx : r ≠ [48, 120]) (hX : r ≠ [48, 88]) {c : Byte}
    {d : ℕ} (h : digitValue 16 c = some d) (t : Bytes) :
    dropHexPrefix 16 (r ++ c :: 0 :: t) = dropHexPrefix 16 r ++ c :: 0 :: t := by
  by_cases h0 : r = []
  · subst h0
    exact dropHexPrefix_of_second (by decide) (by decide) t
  · by_cases h1 : r = [48]
    · subst h1
      obtain ⟨-, -, -, hcx, hcX⟩ := digit_plain h
      exact dropHexPrefix_of_second hcx hcX _
    · exact dropHexPrefix_append h0 h1 hx hX _

theorem length_dropHexPrefix_le (r : Bytes) : (dropHexPrefix 16 r).length ≤ r.length := by
  unfold dropHexPrefix
  split
  · split <;> simp
  · exact le_rfl

theorem length_unsignedPart_le (s : Bytes) : (unsignedPart s).length ≤ s.length := by
  have hdrop : (s.dropWhile isSpace).length ≤ s.length :=
    (List.dropWhile_suffix isSpace).length_le
  unfold unsignedPart takeSign
  split
  · rename_i he
    rw [he] at hdrop
    exact (Nat.le_succ _).trans hdrop
  · rename_i he
    rw [he] at hdrop
    exact (Nat.le_succ _).trans hdrop
  · exact hdrop

/-- A minus sign takes up one byte of its text. -/
theorem length_unsignedPart_lt {s : Bytes} (h : negative s = true) :
    (unsignedPart s).length < s.length := by
  have hdrop : (s.dropWhile isSpace).length ≤ s.length :=
    (List.dropWhile_suffix isSpace).length_le
  unfold negative takeSign at h
  unfold unsignedPart takeSign
  split at h
  · rename_i he
    rw [he] at hdrop
    exact hdrop
  · cases h
  · cases h

/-- The number of a text of nine bytes with a NUL among them is the `int` it is narrowed to, unless
that is negative. -/
theorem wrap32_strtol_of_nonneg {s : Bytes} (h0 : 0 ∈ s) (hs : s.length ≤ 9)
    (h : 0 ≤ wrap32 (strtol 16 s)) : wrap32 (strtol 16 s) = strtol 16 s := by
  have hdigits := length_leadingDigits_lt (zero_mem_digits h0)
  have hprefix := length_dropHexPrefix_le (unsignedPart s)
  have hsign := length_unsignedPart_le s
  rw [strtol_eq] at h ⊢
  cases hneg : negative s with
  | true =>
    have hshort := length_unsignedPart_lt hneg
    have hlt : magnitude s < 16 ^ 7 := digitsToNat_lt_of_digits (by omega)
    rw [hneg, if_pos rfl] at h
    rw [if_pos rfl]
    unfold clampLong wrap32 at h ⊢
    omega
  | false =>
    have hlt : magnitude s < 16 ^ 8 := digitsToNat_lt_of_digits (by omega)
    rw [hneg, if_neg Bool.false_ne_true] at h
    rw [if_neg Bool.false_ne_true]
    unfold clampLong wrap32 at h ⊢
    omega

/-- A digit behind an open text is one more place of its number. -/
theorem magnitude_append_digit {s : Bytes} (h : NumeralOpen s) {k : ℕ} (hk : s.length ≤ k) :
    ∃ v < 16 ^ k, ∀ (c : Byte) (d : ℕ) (t : Bytes), digitValue 16 c = some d →
      magnitude (s ++ c :: 0 :: t) = v * 16 + d := by
  by_cases hx : unsignedPart s = [48, 120] ∨ unsignedPart s = [48, 88]
  · -- only the prefix has come: the digit is the whole number
    refine ⟨0, Nat.pow_pos (by decide), fun c d t hc => ?_⟩
    have hdrop : dropHexPrefix 16 (unsignedPart s ++ c :: 0 :: t) = c :: 0 :: t := by
      rcases hx with hx | hx <;> simp [hx, dropHexPrefix_zero, hc]
    rw [magnitude, (sign_append_digit s hc _).2, hdrop]
    simp [leadingDigits, hc, digitsToNat, show digitValue 16 0 = none by decide]
  · obtain ⟨hx, hX⟩ := not_or.mp hx
    have hdigits := h.resolve_right (not_or.mpr ⟨hx, hX⟩)
    refine ⟨digitsToNat 16 (leadingDigits 16 (dropHexPrefix 16 (unsignedPart s))),
      digitsToNat_lt ((length_dropHexPrefix_le _).trans ((length_unsignedPart_le s).trans hk)),
      fun c d t hc => ?_⟩
    rw [magnitude, (sign_append_digit s hc _).2, dropHexPrefix_append_digit hx hX hc,
      leadingDigits_append_cons hdigits hc (by decide), digitsToNat_snoc]

/-- An open field of nine bytes: the digit behind it decides the number, also as an `int`. -/
theorem wrap32_strtol_ne {s : Bytes} (h : NumeralOpen s) (hs : s.length ≤ 9) (t t' : Bytes) :
    wrap32 (strtol 16 (s ++ 49 :: 0 :: t)) ≠ wrap32 (strtol 16 (s ++ 50 :: 0 :: t')) := by
  obtain ⟨v, hv, hdigit⟩ := magnitude_append_digit h hs
  have hone : digitValue 16 49 = some 1 := by decide
  have htwo : digitValue 16 50 = some 2 := by decide
  rw [strtol_eq, strtol_eq, hdigit 49 1 t hone, hdigit 50 2 t' htwo,
    (sign_append_digit s hone _).1, (sign_append_digit s htwo _).1]
  have hlt : v < 68719476736 := hv
  unfold clampLong wrap32
  split <;> push_cast <;> omega

end Continuations

section Memory

/-- The bytes of a memory from one index up to another. -/
def slice (mem : ℕ → Byte) (i j : ℕ) : Bytes := (List.range' i (j - i)).map mem

/-- `strtol`, started at index `i`, looks at index `j`. -/
def scans (mem : ℕ → Byte) (i j : ℕ) : Prop := i ≤ j ∧ NumeralOpen (slice mem i j)

instance (mem : ℕ → Byte) (i j : ℕ) : Decidable (scans mem i j) :=
  inferInstanceAs (Decidable (_ ∧ _))

theorem scans_self (mem : ℕ → Byte) (i : ℕ) : scans mem i i := by
  refine ⟨le_rfl, ?_⟩
  simpa [slice] using numeralOpen_nil

/-- A NUL ahead stops `strtol` there at the latest. -/
theorem scans_le {mem : ℕ → Byte} {i j n : ℕ} (hn : mem n = 0) (hi : i ≤ n)
    (h : scans mem i j) : j ≤ n := by
  obtain ⟨-, hopen⟩ := h
  by_contra hj
  refine not_open_of_zero_mem ?_ hopen
  rw [slice, List.mem_map]
  exact ⟨n, by rw [List.mem_range'_1]; omega, hn⟩

end Memory

end DemoStorage.NumeralScans
