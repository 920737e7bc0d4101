import DemoStorage.LexicalPaths

/-!
# Names the server generates for uploaded files

A name is the base64 text of the current time, the file size and a random number, below
two directory levels chosen by the hash of that text. The alphabet is static state of the
encoder; nothing in the program ever fills it, so as built every character is NUL.
-/

namespace DemoStorage.GeneratedNames
open ByteStrings LexicalPaths

/-- Static state of the encoder. -/
structure Base64State where
  lineSeparator : Bytes
  lineLength : ℤ
  valueToChar : Fin 64 → Byte
  padCh : Byte

/-- The static initialisers. -/
def initialState : Base64State where
  lineSeparator := []
  lineLength := 72
  valueToChar _ := 0
  padCh := 0

/-- Four characters for three bytes, most significant six bits first. -/
def encodeQuad (st : Base64State) (a b c : Byte) : Bytes :=
  let combined := a.toNat * 65536 + b.toNat * 256 + c.toNat
  [combined / 262144, combined / 4096, combined / 64, combined].map fun v =>
    st.valueToChar ⟨v % 64, Nat.mod_lt _ (by decide)⟩

/-- Encode the full triples of a source, starting at a position within the line. -/
def encodeLoop (st : Base64State) : ℤ → Bytes → Bytes × ℤ
  | linePos, a :: b :: c :: raw =>
    let full := linePos + 4 > st.lineLength
    let sep := if full ∧ st.lineLength ≠ 0 then st.lineSeparator else []
    let r := encodeLoop st (if full then 4 else linePos + 4) raw
    (sep ++ encodeQuad st a b c ++ r.1, r.2)
  | linePos, _ => ([], linePos)

/-- The text up to `*dest_len`; a NUL follows it in the destination. -/
def base64EncodeEx (st : Base64State) (src : Bytes) (bPad : Bool) : Bytes :=
  if src = [] then []
  else
    let whole := src.take (src.length / 3 * 3)
    let left := src.drop (src.length / 3 * 3)
    let r := encodeLoop st 0 whole
    match left with
    | [x] =>
      let text := r.1 ++ (encodeLoop st r.2 [x, 0, 0]).1
      if bPad then text.take (text.length - 2) ++ [st.padCh, st.padCh]
      else text.take (text.length - 2)
    | [x, y] =>
      let text := r.1 ++ (encodeLoop st r.2 [x, y, 0]).1
      if bPad then text.take (text.length - 1) ++ [st.padCh] else text.take (text.length - 1)
    | _ => r.1

/-- P. J. Weinberger hash of a byte string. -/
def PJWHash (key : Bytes) : UInt32 :=
  key.foldl (fun h b =>
    let hash := (h <<< 4) + b.toUInt32
    let test := hash &&& 0xF0000000
    if test ≠ 0 then (hash ^^^ (test >>> 24)) &&& ~~~0xF0000000 else hash) 0

/-- Big-endian bytes of an `int`. -/
def int2buff (n : ℤ) : Bytes :=
  [n / 16777216, n / 65536, n / 256, n].map fun v => UInt8.ofNat (v % 256).toNat

/-- The generated name with all its `*filename_len` bytes. -/
def storageGenFilename (st : Base64State) (currentTime r fileSize : ℤ) : Bytes :=
  let encoded := base64EncodeEx st (int2buff currentTime ++ int2buff fileSize ++ int2buff r) false
  let n := (PJWHash encoded).toNat % 65536
  hexPair (n / 256) ++ slash :: (hexPair (n % 256) ++ slash :: encoded)

/-! The directory names of the two levels. -/

private theorem upperDigitChar_plain (d : Fin 16) : upperDigitChar d.val ≠ slash ∧
    upperDigitChar d.val ≠ 0 ∧ upperDigitChar d.val ≠ 46 := by
  revert d
  decide

private theorem upperDigitChar_mod (n : ℕ) : upperDigitChar (n % 16) ≠ slash ∧
    upperDigitChar (n % 16) ≠ 0 ∧ upperDigitChar (n % 16) ≠ 46 :=
  upperDigitChar_plain ⟨n % 16, Nat.mod_lt _ (by decide)⟩

theorem slash_notMem_hexPair (n : ℕ) : slash ∉ hexPair n := by
  simp [hexPair, (upperDigitChar_mod n).1.symm, (upperDigitChar_mod (n / 16)).1.symm]

theorem zero_notMem_hexPair (n : ℕ) : 0 ∉ hexPair n := by
  simp [hexPair, (upperDigitChar_mod n).2.1.symm, (upperDigitChar_mod (n / 16)).2.1.symm]

theorem component_hexPair (n : ℕ) : component (hexPair n) = .name (hexPair n) := by
  have hdot := (upperDigitChar_mod n).2.2
  refine component_name ?_ ?_ ?_ <;> simp [hexPair, hdot]

/-! The characters of a name. -/

@[simp] theorem length_int2buff (n : ℤ) : (int2buff n).length = 4 := rfl

private theorem encodeLoop_subset (st : Base64State) (linePos : ℤ) (raw : Bytes)
    {x : Byte} (hx : x ∈ (encodeLoop st linePos raw).1) :
    x ∈ st.lineSeparator ∨ x ∈ Set.range st.valueToChar := by
  induction linePos, raw using encodeLoop.induct st with
  | case1 linePos a b c raw full ih =>
    simp only [encodeLoop, List.mem_append] at hx
    rcases hx with (hx | hx) | hx
    · split at hx
      · exact .inl hx
      · cases hx
    · right
      simp only [encodeQuad, List.map_cons, List.map_nil, List.mem_cons, List.not_mem_nil,
        or_false] at hx
      rcases hx with rfl | rfl | rfl | rfl <;> exact Set.mem_range_self _
    · exact ih hx
  | case2 linePos raw h =>
    rw [encodeLoop] at hx
    · cases hx
    · exact h

/-- Without padding every character comes from the alphabet or the line separator. -/
theorem base64EncodeEx_subset (st : Base64State) (src : Bytes) {x : Byte}
    (hx : x ∈ base64EncodeEx st src false) :
    x ∈ st.lineSeparator ∨ x ∈ Set.range st.valueToChar := by
  unfold base64EncodeEx at hx
  split at hx
  · cases hx
  · simp only [Bool.false_eq_true, if_false] at hx
    split at hx
    · rcases List.mem_append.mp (List.mem_of_mem_take hx) with h | h
      · exact encodeLoop_subset st _ _ h
      · exact encodeLoop_subset st _ _ h
    · rcases List.mem_append.mp (List.mem_of_mem_take hx) with h | h
      · exact encodeLoop_subset st _ _ h
      · exact encodeLoop_subset st _ _ h
    · exact encodeLoop_subset st _ _ hx

/-- As built, a generated name is two directory names followed by sixteen NULs. -/
theorem storageGenFilename_initialState (currentTime r fileSize : ℤ) :
    storageGenFilename initialState currentTime r fileSize =
      ascii "00/00/" ++ List.replicate 16 0 := by
  have he : base64EncodeEx initialState
      (int2buff currentTime ++ int2buff fileSize ++ int2buff r) false = List.replicate 16 0 := by
    simp [base64EncodeEx, int2buff, encodeLoop, encodeQuad, initialState]
  simp only [storageGenFilename, he]
  decide +kernel

end DemoStorage.GeneratedNames
