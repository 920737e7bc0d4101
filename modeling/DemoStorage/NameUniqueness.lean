import DemoStorage.Base64Encoding

/-!
# When generated names are unique and usable

Twelve bytes are sixteen characters, which a line holds without a break. The names are different
strings of the right shape exactly when the alphabet has 64 characters, none of them a NUL or a
slash. The alphabet the program runs with has one, the NUL.
-/

namespace DemoStorage.NameUniqueness
open ByteStrings LexicalPaths CutLists BitGroups GeneratedNames Base64Encoding

/-- The three 32-bit values a name is made of. -/
@[ext] structure NameInput where
  time : ℤ
  fileSize : ℤ
  random : ℤ
  time_int : -2147483648 ≤ time ∧ time < 2147483648
  fileSize_int : -2147483648 ≤ fileSize ∧ fileSize < 2147483648
  random_int : -2147483648 ≤ random ∧ random < 2147483648
  deriving DecidableEq

/-- The twelve bytes that are encoded. -/
def NameInput.bytes (x : NameInput) : Bytes :=
  int2buff x.time ++ int2buff x.fileSize ++ int2buff x.random

def generatedName (st : Base64State) (x : NameInput) : Bytes :=
  storageGenFilename st x.time x.random x.fileSize

/-- Two directories of two characters and sixteen characters that are neither NUL nor a slash. -/
def Shaped (name : Bytes) : Prop :=
  ∃ m n : ℕ, ∃ encoded : Bytes, name = hexPair m ++ slash :: (hexPair n ++ slash :: encoded) ∧
    encoded.length = 16 ∧ 0 ∉ encoded ∧ slash ∉ encoded

/-- The name is read as a C string to its end and has its shape. -/
def Usable (name : Bytes) : Prop := (cstr name).length = name.length ∧ Shaped name

section AsBuilt

/-- In the program as built any two names are the same string, and none is usable. -/
theorem names_as_built (x y : NameInput) :
    cstr (generatedName initialState x) = cstr (generatedName initialState y) ∧
      (cstr (generatedName initialState x)).length ≠ (generatedName initialState x).length ∧
      ¬ Shaped (generatedName initialState x) := by
  have hname (z : NameInput) :
      generatedName initialState z = ascii "00/00/" ++ List.replicate 16 0 :=
    storageGenFilename_initialState _ _ _
  rw [hname, hname]
  refine ⟨rfl, by decide, ?_⟩
  rintro ⟨m, n, encoded, heq, hlen, h0, -⟩
  have hdirs :
      (ascii "00/00/").length = (hexPair m ++ slash :: (hexPair n ++ [slash])).length := rfl
  have hcons : hexPair m ++ slash :: (hexPair n ++ slash :: encoded) =
      (hexPair m ++ slash :: (hexPair n ++ [slash])) ++ encoded := by simp
  rw [hcons] at heq
  obtain ⟨-, henc⟩ := List.append_inj heq hdirs
  exact h0 (henc ▸ List.mem_replicate.mpr ⟨by decide, rfl⟩)

def zeroInput : NameInput := ⟨0, 0, 0, by decide, by decide, by decide⟩
def laterInput : NameInput := ⟨1, 0, 0, by decide, by decide, by decide⟩

theorem later_name_collides : zeroInput ≠ laterInput ∧
    cstr (generatedName initialState zeroInput) = cstr (generatedName initialState laterInput) ∧
    ¬ Usable (generatedName initialState zeroInput) := by
  refine ⟨by decide, by decide +kernel, fun h => ?_⟩
  exact absurd h.1 (by decide +kernel)

end AsBuilt

section AnyAlphabet
variable {lineSeparator : Bytes} {valueToChar : Fin 64 → Byte} {padCh : Byte}

theorem length_bytes (x : NameInput) : x.bytes.length = 12 := rfl

/-- The sixteen characters of a name. -/
theorem encoded_eq (x : NameInput) :
    base64EncodeEx (encoder lineSeparator valueToChar padCh) x.bytes false =
      (sixBits x.bytes).map valueToChar := by
  have hlen : (chars valueToChar x.bytes).length = 16 := by
    rw [length_chars, length_bytes]
  rw [base64EncodeEx_eq, reference, if_neg Bool.false_ne_true, wrapLines_short (by omega), chars]

theorem int2buff_inj {m n : ℤ} (hm : -2147483648 ≤ m ∧ m < 2147483648)
    (hn : -2147483648 ≤ n ∧ n < 2147483648) (h : int2buff m = int2buff n) : m = n := by
  have hbyte {a b : ℤ} (he : UInt8.ofNat (a % 256).toNat = UInt8.ofNat (b % 256).toNat) :
      a % 256 = b % 256 := by
    have hnat := congrArg UInt8.toNat he
    rw [UInt8.toNat_ofNat', UInt8.toNat_ofNat'] at hnat
    omega
  simp only [int2buff, List.map_cons, List.map_nil, List.cons.injEq, and_true] at h
  obtain ⟨h1, h2, h3, h4⟩ := h
  have e1 := hbyte h1
  have e2 := hbyte h2
  have e3 := hbyte h3
  have e4 := hbyte h4
  omega

theorem bytes_injective : Function.Injective NameInput.bytes := by
  intro x y h
  obtain ⟨h12, h3⟩ := List.append_inj h rfl
  obtain ⟨h1, h2⟩ := List.append_inj h12 rfl
  ext
  · exact int2buff_inj x.time_int y.time_int h1
  · exact int2buff_inj x.fileSize_int y.fileSize_int h2
  · exact int2buff_inj x.random_int y.random_int h3

/-- The part of a name before its sixteen characters. -/
def dirs (encoded : Bytes) : Bytes :=
  hexPair ((PJWHash encoded).toNat % 65536 / 256) ++
    slash :: (hexPair ((PJWHash encoded).toNat % 65536 % 256) ++ [slash])

theorem generatedName_eq (x : NameInput) :
    generatedName (encoder lineSeparator valueToChar padCh) x =
      dirs ((sixBits x.bytes).map valueToChar) ++ (sixBits x.bytes).map valueToChar := by
  have henc : base64EncodeEx (encoder lineSeparator valueToChar padCh)
      (int2buff x.time ++ int2buff x.fileSize ++ int2buff x.random) false =
        (sixBits x.bytes).map valueToChar := encoded_eq x
  simp only [generatedName, storageGenFilename, henc, dirs]
  simp

theorem zero_notMem_dirs (encoded : Bytes) : 0 ∉ dirs encoded := by
  have hslash : (0 : Byte) ≠ slash := by decide
  simp [dirs, zero_notMem_hexPair, hslash]

/-- What stands behind the directories of a shaped name. -/
theorem encoded_of_shaped {encoded : Bytes} (h : Shaped (dirs encoded ++ encoded)) :
    encoded.length = 16 ∧ 0 ∉ encoded ∧ slash ∉ encoded := by
  obtain ⟨m, n, other, heq, hlen, h0, hs⟩ := h
  have hcons : hexPair m ++ slash :: (hexPair n ++ slash :: other) =
      (hexPair m ++ slash :: (hexPair n ++ [slash])) ++ other := by simp
  rw [hcons] at heq
  obtain ⟨-, rfl⟩ := List.append_inj heq rfl
  exact ⟨hlen, h0, hs⟩

/-- The names of distinct values are distinct strings, and every name is usable. -/
def NamesWork (st : Base64State) : Prop :=
  (∀ x y : NameInput, x ≠ y → cstr (generatedName st x) ≠ cstr (generatedName st y)) ∧
    ∀ x, Usable (generatedName st x)

/-- A random number below 64 shows in the last character only. -/
def smallInput (u : Fin 64) : NameInput where
  time := 0
  fileSize := 0
  random := u
  time_int := by decide
  fileSize_int := by decide
  random_int := by omega

theorem smallInput_injective : Function.Injective smallInput := by
  intro u v h
  have hr : (u : ℤ) = v := congrArg NameInput.random h
  exact Fin.ext (by omega)

theorem sixBits_smallInput (u : Fin 64) :
    sixBits (smallInput u).bytes = List.replicate 15 0 ++ [u] := by
  have hbytes : ∀ u : Fin 64,
      (smallInput u).bytes = [0, 0, 0, 0, 0, 0, 0, 0, 0, 0, 0, UInt8.ofNat u] := by
    decide +kernel
  have hlast : ∀ u : Fin 64, quad (combined 0 0 (UInt8.ofNat u)) = [0, 0, 0, u] := by
    decide +kernel
  have hzero : quad (combined 0 0 0) = [0, 0, 0, 0] := by decide
  rw [hbytes, sixBits_cons, sixBits_cons, sixBits_cons, sixBits_cons, sixBits_nil, hzero, hlast]
  rfl

theorem map_smallInput (u : Fin 64) : (sixBits (smallInput u).bytes).map valueToChar =
    List.replicate 15 (valueToChar 0) ++ [valueToChar u] := by
  rw [sixBits_smallInput, List.map_append, List.map_replicate]
  rfl

/-- Names work exactly with an alphabet of 64 characters without NUL and slash. -/
theorem names_work_iff : NamesWork (encoder lineSeparator valueToChar padCh) ↔
    Function.Injective valueToChar ∧ 0 ∉ Set.range valueToChar ∧ slash ∉ Set.range valueToChar := by
  constructor
  · rintro ⟨hunique, husable⟩
    have hshape (u : Fin 64) := encoded_of_shaped (generatedName_eq (smallInput u) ▸
      (husable (smallInput u)).2)
    have hmem (u : Fin 64) : valueToChar u ∈ (sixBits (smallInput u).bytes).map valueToChar := by
      rw [map_smallInput]
      exact List.mem_append_right _ (List.mem_singleton.mpr rfl)
    refine ⟨fun u v huv => ?_, ?_, ?_⟩
    · by_contra hne
      refine hunique _ _ (smallInput_injective.ne hne) ?_
      rw [generatedName_eq, generatedName_eq, map_smallInput, map_smallInput, huv]
    · rintro ⟨u, hu⟩
      exact (hshape u).2.1 (hu ▸ hmem u)
    · rintro ⟨u, hu⟩
      exact (hshape u).2.2 (hu ▸ hmem u)
  · rintro ⟨hinj, h0, hslash⟩
    have hnotMem {c : Byte} (hc : c ∉ Set.range valueToChar) (x : NameInput) :
        c ∉ (sixBits x.bytes).map valueToChar := by
      intro h
      obtain ⟨u, -, hu⟩ := List.mem_map.mp h
      exact hc ⟨u, hu⟩
    have hcstr (x : NameInput) : cstr (generatedName (encoder lineSeparator valueToChar padCh) x) =
        generatedName (encoder lineSeparator valueToChar padCh) x := by
      rw [generatedName_eq, cstr_append (zero_notMem_dirs _), cstr_eq_self (hnotMem h0 x)]
    have hlen (x : NameInput) : ((sixBits x.bytes).map valueToChar).length = 16 := by
      rw [List.length_map, length_sixBits, length_bytes]
    refine ⟨fun x y hne heq => ?_, fun x => ⟨by rw [hcstr], ?_⟩⟩
    · rw [hcstr, hcstr, generatedName_eq, generatedName_eq] at heq
      obtain ⟨-, hchars⟩ := List.append_inj' heq ((hlen x).trans (hlen y).symm)
      exact hne (bytes_injective (sixBits_injective (hinj.list_map hchars)))
    · rw [generatedName_eq]
      set encoded := (sixBits x.bytes).map valueToChar
      refine ⟨(PJWHash encoded).toNat % 65536 / 256, (PJWHash encoded).toNat % 65536 % 256, encoded,
        ?_, hlen x, hnotMem h0 x, hnotMem hslash x⟩
      simp [dirs]

end AnyAlphabet

end DemoStorage.NameUniqueness
