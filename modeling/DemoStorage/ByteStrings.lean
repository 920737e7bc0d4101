import Mathlib.Data.Nat.Digits.Lemmas
import Mathlib.Tactic.Linarith

/-!
# Byte strings, C numerals and machine integers

Buffers are lists of bytes. A C string is the part of a buffer before its first NUL.
The numeral functions follow the C library: `strtol` skips blanks, takes one sign, reads
the longest run of digits and saturates at the bounds of `long`; `%d` and `%x` print
without leading zeros.
-/

namespace DemoStorage.ByteStrings

abbrev Byte := UInt8
abbrev Bytes := List Byte

/-- The bytes of a string constant of the source. -/
def ascii (s : String) : Bytes := s.toList.map fun c => UInt8.ofNat c.toNat

/-- The C string at the start of a buffer. -/
def cstr : Bytes → Bytes
  | [] => []
  | c :: s => if c = 0 then [] else c :: cstr s

@[simp] theorem cstr_nil : cstr [] = [] := rfl

theorem zero_notMem_cstr (b : Bytes) : 0 ∉ cstr b := by
  induction b with
  | nil => simp
  | cons c s ih =>
    by_cases hc : c = 0
    · simp [cstr, hc]
    · simpa [cstr, hc, ih] using fun he => hc he.symm

theorem cstr_append {a : Bytes} (h : 0 ∉ a) (b : Bytes) : cstr (a ++ b) = a ++ cstr b := by
  induction a with
  | nil => rfl
  | cons c a ih =>
    obtain ⟨hc, ha⟩ := not_or.mp (fun hm => h (List.mem_cons.mpr hm))
    have hc' : c ≠ 0 := fun he => hc he.symm
    simp [cstr, hc', ih ha]

theorem cstr_eq_self {b : Bytes} (h : 0 ∉ b) : cstr b = b := by
  simpa using cstr_append h []

@[simp] theorem cstr_cstr (b : Bytes) : cstr (cstr b) = cstr b :=
  cstr_eq_self (zero_notMem_cstr b)

theorem mem_of_mem_cstr {b : Bytes} {x : Byte} (h : x ∈ cstr b) : x ∈ b := by
  induction b with
  | nil => exact h
  | cons c s ih =>
    unfold cstr at h
    split at h
    · cases h
    · rcases List.mem_cons.mp h with rfl | h
      · exact List.mem_cons_self
      · exact List.mem_cons_of_mem _ (ih h)

theorem length_cstr_le (s : Bytes) : (cstr s).length ≤ s.length := by
  induction s with
  | nil => simp
  | cons c s ih =>
    rw [cstr]
    split
    · simp
    · simpa using ih

/-- Two's-complement wrap-around of a 32-bit `int`. -/
def wrap32 (n : ℤ) : ℤ := (n + 2147483648) % 4294967296 - 2147483648

theorem wrap32_eq {n : ℤ} (hl : -2147483648 ≤ n) (hu : n < 2147483648) : wrap32 n = n := by
  unfold wrap32
  omega

theorem wrap32_lt (n : ℤ) : wrap32 n < 2147483648 := by
  unfold wrap32
  omega

theorem le_wrap32 (n : ℤ) : -2147483648 ≤ wrap32 n := by
  unfold wrap32
  omega

theorem wrap32_eq_wrap32 {m n : ℤ} : wrap32 m = wrap32 n ↔ m % 4294967296 = n % 4294967296 := by
  unfold wrap32
  omega

theorem wrap32_add (n k : ℤ) : wrap32 (wrap32 n + k) = wrap32 (n + k) := by
  rw [wrap32_eq_wrap32]
  unfold wrap32
  omega

/-- Largest value of `int`. -/
def INT_MAX : ℤ := 2147483647

section Digits

/-- Value of a digit character in the given base. -/
def digitValue (base : ℕ) (c : Byte) : Option ℕ :=
  let v := if 48 ≤ c ∧ c ≤ 57 then c.toNat - 48
    else if 97 ≤ c ∧ c ≤ 122 then c.toNat - 87
    else if 65 ≤ c ∧ c ≤ 90 then c.toNat - 55
    else base
  if v < base then some v else none

/-- Lower-case character of a digit. -/
def digitChar (d : ℕ) : Byte := if d < 10 then UInt8.ofNat (48 + d) else UInt8.ofNat (87 + d)

/-- Upper-case character of a digit. -/
def upperDigitChar (d : ℕ) : Byte :=
  if d < 10 then UInt8.ofNat (48 + d) else UInt8.ofNat (55 + d)

/-- Values of the digits a numeral starts with. -/
def leadingDigits (base : ℕ) : Bytes → List ℕ
  | [] => []
  | c :: cs => match digitValue base c with
    | some d => d :: leadingDigits base cs
    | none => []

/-- What is left of a numeral after its leading digits. -/
def afterDigits (base : ℕ) : Bytes → Bytes
  | [] => []
  | c :: cs => match digitValue base c with
    | some _ => afterDigits base cs
    | none => c :: cs

def digitsToNat (base : ℕ) (ds : List ℕ) : ℕ := ds.foldl (fun v d => v * base + d) 0

/-- Digits of a number in the given base, most significant first, without leading zeros. -/
def numeral (base n : ℕ) : Bytes :=
  if n = 0 then [48] else ((Nat.digits base n).reverse).map digitChar

private theorem digitValue_digitChar_sixteen (d : Fin 16) :
    digitValue 16 (digitChar d) = some d.val := by
  revert d
  decide

theorem digitValue_digitChar {base d : ℕ} (hb : base ≤ 16) (hd : d < base) :
    digitValue base (digitChar d) = some d := by
  have h := digitValue_digitChar_sixteen ⟨d, by omega⟩
  simp only [digitValue] at h ⊢
  generalize (digitChar d) = c at h ⊢
  split_ifs at h ⊢ <;> simp_all <;> omega

theorem leadingDigits_map_append {base : ℕ} (hb : base ≤ 16) {ds : List ℕ}
    (hd : ∀ d ∈ ds, d < base) (rest : Bytes) :
    leadingDigits base (ds.map digitChar ++ rest) = ds ++ leadingDigits base rest := by
  induction ds with
  | nil => rfl
  | cons d ds ih =>
    have ht := ih fun e he => hd e (List.mem_cons_of_mem _ he)
    simp [leadingDigits, digitValue_digitChar hb (hd d List.mem_cons_self), ht]

theorem afterDigits_map_append {base : ℕ} (hb : base ≤ 16) {ds : List ℕ}
    (hd : ∀ d ∈ ds, d < base) (rest : Bytes) :
    afterDigits base (ds.map digitChar ++ rest) = afterDigits base rest := by
  induction ds with
  | nil => rfl
  | cons d ds ih =>
    have ht := ih fun e he => hd e (List.mem_cons_of_mem _ he)
    simp [afterDigits, digitValue_digitChar hb (hd d List.mem_cons_self), ht]

private theorem foldl_digits (base : ℕ) (ds : List ℕ) (v : ℕ) :
    ds.foldl (fun v d => v * base + d) v =
      v * base ^ ds.length + Nat.ofDigits base ds.reverse := by
  induction ds generalizing v with
  | nil => simp
  | cons d ds ih =>
    rw [List.foldl_cons, ih, List.reverse_cons, Nat.ofDigits_append]
    simp [pow_succ]
    ring

theorem digitsToNat_eq (base : ℕ) (ds : List ℕ) :
    digitsToNat base ds = Nat.ofDigits base ds.reverse := by
  simp [digitsToNat, foldl_digits]

/-- The digits behind a printed numeral. -/
def numeralDigits (base n : ℕ) : List ℕ := if n = 0 then [0] else (Nat.digits base n).reverse

theorem numeral_eq_map (base n : ℕ) : numeral base n = (numeralDigits base n).map digitChar := by
  unfold numeral numeralDigits
  split <;> rfl

theorem numeralDigits_lt {base n : ℕ} (hb : 1 < base) : ∀ d ∈ numeralDigits base n, d < base := by
  unfold numeralDigits
  split
  · simp
    omega
  · intro d hd
    exact Nat.digits_lt_base hb (List.mem_reverse.mp hd)

theorem digitsToNat_numeralDigits {base : ℕ} (n : ℕ) :
    digitsToNat base (numeralDigits base n) = n := by
  unfold numeralDigits
  split
  · simp_all [digitsToNat]
  · rw [digitsToNat_eq, List.reverse_reverse, Nat.ofDigits_digits]

theorem numeralDigits_ne_nil (base n : ℕ) : numeralDigits base n ≠ [] := by
  unfold numeralDigits
  split
  · simp
  · simpa [Nat.digits_eq_nil_iff_eq_zero] using by assumption

/-- Reading back a printed numeral that a non-digit follows. -/
theorem leadingDigits_numeral {base : ℕ} (h1 : 1 < base) (hb : base ≤ 16) (n : ℕ) {rest : Bytes}
    (hr : leadingDigits base rest = []) :
    digitsToNat base (leadingDigits base (numeral base n ++ rest)) = n := by
  rw [numeral_eq_map, leadingDigits_map_append hb (numeralDigits_lt h1), hr, List.append_nil,
    digitsToNat_numeralDigits]

theorem afterDigits_numeral {base : ℕ} (h1 : 1 < base) (hb : base ≤ 16) (n : ℕ) (rest : Bytes) :
    afterDigits base (numeral base n ++ rest) = afterDigits base rest := by
  rw [numeral_eq_map, afterDigits_map_append hb (numeralDigits_lt h1)]

end Digits

/-- `%d`. -/
def decimal (n : ℤ) : Bytes := if n < 0 then 45 :: numeral 10 n.natAbs else numeral 10 n.natAbs

/-- `%x` of an `int`. -/
def hexadecimal (n : ℤ) : Bytes := numeral 16 (n % 4294967296).toNat

/-- `%02X` of a number below 256. -/
def hexPair (n : ℕ) : Bytes := [upperDigitChar (n / 16 % 16), upperDigitChar (n % 16)]

def isSpace (c : Byte) : Bool := c = 32 || (9 ≤ c && c ≤ 13)

/-- Sign of a numeral and what follows it. -/
def takeSign : Bytes → Bool × Bytes
  | 45 :: s => (true, s)
  | 43 :: s => (false, s)
  | s => (false, s)

/-- In base 16 a `0x` in front of a digit is skipped. -/
def dropHexPrefix (base : ℕ) : Bytes → Bytes
  | 48 :: x :: d :: s =>
    if base = 16 ∧ (x = 120 ∨ x = 88) ∧ (digitValue 16 d).isSome then d :: s else 48 :: x :: d :: s
  | s => s

/-- Saturation at the bounds of a 64-bit `long`. -/
def clampLong (n : ℤ) : ℤ := max (-9223372036854775808) (min 9223372036854775807 n)

def strtol (base : ℕ) (s : Bytes) : ℤ :=
  let signed := takeSign (s.dropWhile isSpace)
  let v := digitsToNat base (leadingDigits base (dropHexPrefix base signed.2))
  clampLong (if signed.1 then -(v : ℤ) else v)

def atoi (s : Bytes) : ℤ := wrap32 (strtol 10 s)

theorem dropHexPrefix_ten (s : Bytes) : dropHexPrefix 10 s = s := by
  unfold dropHexPrefix
  split
  · simp
  · rfl

private theorem digitChar_plain_sixteen (d : Fin 16) : isSpace (digitChar d) = false ∧
    digitChar d ≠ 43 ∧ digitChar d ≠ 45 ∧ digitChar d ≠ 88 ∧ digitChar d ≠ 120 := by
  revert d
  decide

/-- Digits are neither blanks nor signs. -/
theorem takeSign_digits {base : ℕ} (hb : base ≤ 16) {ds : List ℕ} (hne : ds ≠ [])
    (hds : ∀ d ∈ ds, d < base) (rest : Bytes) :
    takeSign ((ds.map digitChar ++ rest).dropWhile isSpace) =
      (false, ds.map digitChar ++ rest) := by
  obtain ⟨d, ds, rfl⟩ := List.exists_cons_of_ne_nil hne
  have hd : d < base := hds d List.mem_cons_self
  obtain ⟨hs, hplus, hminus, -, -⟩ := digitChar_plain_sixteen ⟨d, by omega⟩
  dsimp only at hs hplus hminus
  rw [List.map_cons, List.cons_append, List.dropWhile_cons_of_neg (by simp [hs])]
  generalize digitChar d = c at hplus hminus
  unfold takeSign
  split
  · rename_i h
    exact absurd (List.cons.inj h).1 hminus
  · rename_i h
    exact absurd (List.cons.inj h).1 hplus
  · rfl

theorem takeSign_numeral {base : ℕ} (h1 : 1 < base) (hb : base ≤ 16) (n : ℕ) (rest : Bytes) :
    takeSign ((numeral base n ++ rest).dropWhile isSpace) = (false, numeral base n ++ rest) := by
  rw [numeral_eq_map]
  exact takeSign_digits hb (numeralDigits_ne_nil base n) (numeralDigits_lt h1) rest

/-- Printed digits hold no `x`. -/
theorem dropHexPrefix_numeral (n : ℕ) (rest : Bytes) :
    dropHexPrefix 16 (numeral 16 n ++ 0 :: rest) = numeral 16 n ++ 0 :: rest := by
  obtain ⟨d, ds, hds⟩ := List.exists_cons_of_ne_nil (numeralDigits_ne_nil 16 n)
  rw [numeral_eq_map, hds, List.map_cons, List.cons_append]
  have hsecond (x : Byte) (s : Bytes) (h : ds.map digitChar ++ 0 :: rest = x :: s) :
      ¬ (x = 120 ∨ x = 88) := by
    cases ds with
    | nil =>
      obtain ⟨rfl, -⟩ := List.cons.inj h
      decide
    | cons e es =>
      obtain ⟨rfl, -⟩ := List.cons.inj h
      have he : e < 16 := numeralDigits_lt (by decide) e (by rw [hds]; simp)
      obtain ⟨-, -, -, hX, hx⟩ := digitChar_plain_sixteen ⟨e, he⟩
      exact not_or.mpr ⟨hx, hX⟩
  generalize ds.map digitChar ++ 0 :: rest = tail at hsecond
  unfold dropHexPrefix
  split
  · rename_i h
    obtain ⟨-, rfl⟩ := List.cons.inj h
    rw [if_neg fun hc => hsecond _ _ rfl hc.2.1, h]
  · rfl

theorem clampLong_natCast {n : ℕ} (h : n ≤ 9223372036854775807) : clampLong n = n := by
  unfold clampLong
  omega

/-- `atoi` of decimal digits, also with zeros in front, is their number. -/
theorem atoi_digits {ds : List ℕ} (hne : ds ≠ []) (hds : ∀ d ∈ ds, d < 10)
    (hmax : (digitsToNat 10 ds : ℤ) ≤ INT_MAX) : atoi (ds.map digitChar) = digitsToNat 10 ds := by
  have hsign := takeSign_digits (by decide : 10 ≤ 16) hne hds []
  have hdigits := leadingDigits_map_append (by decide : 10 ≤ 16) hds []
  rw [List.append_nil] at hsign hdigits
  rw [leadingDigits, List.append_nil] at hdigits
  simp only [atoi, strtol, hsign, dropHexPrefix_ten, hdigits, Bool.false_eq_true, if_false]
  rw [INT_MAX] at hmax
  rw [clampLong_natCast (by omega), wrap32_eq (by omega) (by omega)]

/-- `strtol` reads back what `%x` prints of a number that is not negative. -/
theorem strtol_hexadecimal {n : ℤ} (h0 : 0 ≤ n) (h1 : n < 4294967296) (rest : Bytes) :
    strtol 16 (hexadecimal n ++ 0 :: rest) = n := by
  have hr : leadingDigits 16 (0 :: rest) = [] := by rfl
  rw [hexadecimal, Int.emod_eq_of_lt h0 h1, strtol, takeSign_numeral (by decide) le_rfl]
  simp only [dropHexPrefix_numeral, leadingDigits_numeral (by decide : 1 < 16) le_rfl _ hr,
    Bool.false_eq_true, if_false]
  rw [clampLong_natCast (by omega)]
  omega

/-- `atoi` reads back what `%d` prints of an `int`, up to a byte that is no digit. -/
theorem atoi_decimal {n : ℤ} (h0 : -2147483648 ≤ n) (h1 : n < 2147483648) {rest : Bytes}
    (hr : leadingDigits 10 rest = []) : atoi (decimal n ++ rest) = n := by
  have hdigits := leadingDigits_numeral (by decide : 1 < 10) (by decide) n.natAbs hr
  unfold atoi strtol decimal
  split_ifs with hn
  · have hsign : takeSign ((45 :: numeral 10 n.natAbs ++ rest).dropWhile isSpace) =
        (true, numeral 10 n.natAbs ++ rest) := rfl
    simp only [hsign, dropHexPrefix_ten, hdigits, if_true]
    have hclamp : clampLong (-(n.natAbs : ℤ)) = n := by
      unfold clampLong
      omega
    rw [hclamp, wrap32_eq h0 h1]
  · rw [takeSign_numeral (by decide) (by decide)]
    simp only [dropHexPrefix_ten, hdigits, Bool.false_eq_true, if_false]
    rw [clampLong_natCast (by omega)]
    have habs : (n.natAbs : ℤ) = n := by omega
    rw [habs, wrap32_eq h0 h1]

/-- The hexadecimal digits of an `int` are eight at most. -/
theorem length_hexadecimal_le (n : ℤ) : (hexadecimal n).length ≤ 8 := by
  have hn : (n % 4294967296).toNat < 16 ^ 8 := by omega
  rw [hexadecimal, numeral_eq_map, List.length_map, numeralDigits]
  split_ifs
  · simp
  · rw [List.length_reverse]
    exact (Nat.digits_length_le_iff (by decide) _).mpr hn

/-- A byte that is no digit stands behind the decimal number a text starts with. -/
def NumberEnds (s : Bytes) : Prop := afterDigits 10 (takeSign (s.dropWhile isSpace)).2 ≠ []

instance (s : Bytes) : Decidable (NumberEnds s) := inferInstanceAs (Decidable (_ ≠ _))

theorem leadingDigits_append {base : ℕ} {s : Bytes} (h : afterDigits base s ≠ []) (t : Bytes) :
    leadingDigits base (s ++ t) = leadingDigits base s := by
  induction s with
  | nil => exact absurd rfl h
  | cons c s ih =>
    simp only [afterDigits] at h
    simp only [List.cons_append, leadingDigits]
    split
    · rename_i hd
      rw [hd] at h
      rw [ih h]
    · rfl

theorem takeSign_append {s : Bytes} (h : s ≠ []) (t : Bytes) :
    takeSign (s ++ t) = ((takeSign s).1, (takeSign s).2 ++ t) := by
  obtain ⟨c, s, rfl⟩ := List.exists_cons_of_ne_nil h
  unfold takeSign
  simp only [List.cons_append]
  split <;> simp_all

/-- What is appended behind the end of a number does not change it. -/
theorem atoi_append {s : Bytes} (h : NumberEnds s) (t : Bytes) : atoi (s ++ t) = atoi s := by
  unfold NumberEnds at h
  have hne : s.dropWhile isSpace ≠ [] := by
    intro he
    simp [he, takeSign, afterDigits] at h
  have hdrop : (s ++ t).dropWhile isSpace = s.dropWhile isSpace ++ t := by
    rw [List.dropWhile_append, if_neg (by simpa using hne)]
  simp only [atoi, strtol, dropHexPrefix_ten, hdrop, takeSign_append hne, leadingDigits_append h]

end DemoStorage.ByteStrings
