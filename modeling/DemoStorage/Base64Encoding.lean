import DemoStorage.BitGroups
import DemoStorage.GeneratedNames

/-!
# What the base64 encoder computes

The reference encoding maps the groups of six bits through the alphabet and breaks the text
every 72 characters. The encoder works three bytes at a time with the position within the line
carried over, and cuts or overwrites the end of the last quad afterwards.
-/

namespace DemoStorage.Base64Encoding
open ByteStrings LexicalPaths CutLists BitGroups GeneratedNames

/-- The encoder's static state with the line length of the source. -/
def encoder (lineSeparator : Bytes) (valueToChar : Fin 64 → Byte) (padCh : Byte) : Base64State where
  lineSeparator := lineSeparator
  lineLength := 72
  valueToChar := valueToChar
  padCh := padCh

/-- What the encoder leaves in `dest`, and `*dest_len`. -/
def encodeDest (st : Base64State) (src : Bytes) (bPad : Bool) : Bytes × ℤ :=
  if src = [] then ([0], 0)
  else
    let whole := src.take (src.length / 3 * 3)
    let left := src.drop (src.length / 3 * 3)
    let r := encodeLoop st 0 whole
    let text := match left with
      | [x] => r.1 ++ (encodeLoop st r.2 [x, 0, 0]).1
      | [x, y] => r.1 ++ (encodeLoop st r.2 [x, y, 0]).1
      | _ => r.1
    let dest := text ++ [0]
    let destLen := wrap32 text.length
    match left with
    | [_] =>
      if bPad then ((dest.set (text.length - 1) st.padCh).set (text.length - 2) st.padCh, destLen)
      else (dest.set (text.length - 2) 0, wrap32 (destLen - 2))
    | [_, _] =>
      if bPad then (dest.set (text.length - 1) st.padCh, destLen)
      else (dest.set (text.length - 1) 0, wrap32 (destLen - 1))
    | _ => (dest, destLen)

section Reference
variable (lineSeparator : Bytes) (valueToChar : Fin 64 → Byte) (padCh : Byte)

/-- The characters of a byte string, without padding or line breaks. -/
def chars (src : Bytes) : Bytes := (sixBits src).map valueToChar

/-- The characters with the last quad filled up. -/
def padded (src : Bytes) : Bytes :=
  chars valueToChar src ++ List.replicate ((4 - (sixBits src).length % 4) % 4) padCh

/-- The reference encoding: a line has eighteen quads, the last quad is filled up or left short. -/
def reference (bPad : Bool) (src : Bytes) : Bytes :=
  wrapLines 72 lineSeparator (if bPad then padded valueToChar padCh src else chars valueToChar src)

end Reference

section Loop
variable (st : Base64State)

theorem encodeQuad_eq (a b c : Byte) :
    encodeQuad st a b c = (quad (combined a b c)).map st.valueToChar := rfl

theorem encodeLoop_nil (p : ℤ) : encodeLoop st p [] = ([], p) := rfl

/-- The loop goes on over a second source where the first one left off. -/
theorem encodeLoop_append (p : ℤ) {raw : Bytes} (h3 : raw.length % 3 = 0) (tail : Bytes) :
    encodeLoop st p (raw ++ tail) =
      ((encodeLoop st p raw).1 ++ (encodeLoop st (encodeLoop st p raw).2 tail).1,
        (encodeLoop st (encodeLoop st p raw).2 tail).2) := by
  induction raw using byThrees generalizing p with
  | nil => rfl
  | one x => simp at h3
  | two x y => simp at h3
  | cons a b c raw ih =>
    have hrest := fun p => ih p (by simp only [List.length_cons] at h3; omega)
    simp only [List.cons_append, encodeLoop, hrest, List.append_assoc]

end Loop

section Lines
variable {lineSeparator : Bytes} {valueToChar : Fin 64 → Byte} {padCh : Byte}

/-- The loop writes on behind what stands on the line already. -/
theorem encodeLoop_wrap {raw : Bytes} (h3 : raw.length % 3 = 0) (line : Bytes)
    (h4 : line.length % 4 = 0) (hline : line.length ≤ 72) :
    line ++ (encodeLoop (encoder lineSeparator valueToChar padCh) line.length raw).1 =
      wrapLines 72 lineSeparator (line ++ chars valueToChar raw) := by
  induction raw using byThrees generalizing line with
  | nil =>
    rw [chars, sixBits_nil, List.map_nil, List.append_nil, wrapLines_short hline, encodeLoop_nil,
      List.append_nil]
  | one x => simp at h3
  | two x y => simp at h3
  | cons a b c raw ih =>
    have h3' : raw.length % 3 = 0 := by
      simp only [List.length_cons] at h3
      omega
    set q := (quad (combined a b c)).map valueToChar with hq
    have hqlen : q.length = 4 := by rw [hq, List.length_map, length_quad]
    have hquad : encodeQuad (encoder lineSeparator valueToChar padCh) a b c = q :=
      encodeQuad_eq _ a b c
    have hchars : chars valueToChar (a :: b :: c :: raw) = q ++ chars valueToChar raw := by
      rw [chars, sixBits_cons, List.map_append, hq, chars]
    rw [hchars, encodeLoop, hquad]
    by_cases hfull : line.length = 72
    · -- the quad begins a new line
      have hnew := ih h3' q (by omega) (by omega)
      have hne : q ++ chars valueToChar raw ≠ [] := by
        intro h
        rw [(List.append_eq_nil_iff.mp h).1] at hqlen
        cases hqlen
      rw [wrapLines_append (by decide) hfull hne, ← hnew, hqlen]
      simp [encoder, hfull]
    · have hon := ih h3' (line ++ q) (by rw [List.length_append]; omega)
        (by rw [List.length_append]; omega)
      rw [← List.append_assoc line q, ← hon, List.length_append, hqlen]
      have hfits : ¬ (line.length : ℤ) + 4 > 72 := by omega
      simp [encoder, hfits]

/-- The loops over both sources write the characters of their bytes. -/
theorem encodeLoop_text {whole : Bytes} (h3 : whole.length % 3 = 0) {tail : Bytes}
    (htail : tail.length % 3 = 0) :
    (encodeLoop (encoder lineSeparator valueToChar padCh) 0 whole).1 ++
        (encodeLoop (encoder lineSeparator valueToChar padCh)
          (encodeLoop (encoder lineSeparator valueToChar padCh) 0 whole).2 tail).1 =
      wrapLines 72 lineSeparator (chars valueToChar (whole ++ tail)) := by
  have hboth : (whole ++ tail).length % 3 = 0 := by
    rw [List.length_append]
    omega
  have hwrap := @encodeLoop_wrap lineSeparator valueToChar padCh _ hboth [] rfl (Nat.zero_le _)
  rw [List.nil_append, List.nil_append, List.length_nil] at hwrap
  rw [← hwrap]
  exact (congrArg Prod.fst (encodeLoop_append _ 0 h3 tail)).symm

variable {whole : Bytes}

theorem length_chars (src : Bytes) :
    (chars valueToChar src).length = (8 * src.length + 5) / 6 := by
  rw [chars, List.length_map, length_sixBits]

theorem chars_append (h3 : whole.length % 3 = 0) (left : Bytes) :
    chars valueToChar (whole ++ left) = chars valueToChar whole ++ chars valueToChar left := by
  rw [chars, sixBits_append h3, List.map_append, chars, chars]

theorem chars_one (h3 : whole.length % 3 = 0) (x : Byte) :
    chars valueToChar (whole ++ [x, 0, 0]) =
      chars valueToChar (whole ++ [x]) ++ [valueToChar 0, valueToChar 0] := by
  have hquad :
      chars valueToChar [x, 0, 0] = chars valueToChar [x] ++ [valueToChar 0, valueToChar 0] := by
    rw [chars, sixBits_cons, sixBits_nil, List.append_nil, sixBits_one, List.map_append]
    rfl
  rw [chars_append h3, chars_append h3, List.append_assoc, hquad]

theorem chars_two (h3 : whole.length % 3 = 0) (x y : Byte) :
    chars valueToChar (whole ++ [x, y, 0]) =
      chars valueToChar (whole ++ [x, y]) ++ [valueToChar 0] := by
  have hquad : chars valueToChar [x, y, 0] = chars valueToChar [x, y] ++ [valueToChar 0] := by
    rw [chars, sixBits_cons, sixBits_nil, List.append_nil, sixBits_two, List.map_append]
    rfl
  rw [chars_append h3, chars_append h3, List.append_assoc, hquad]

/-- The end of a quad stands on the line where the quad began. -/
theorem wrap_tail {src : Bytes} {tail : Bytes} (h3 : src.length % 3 ≠ 0)
    (htail : (chars valueToChar src).length % 4 + tail.length ≤ 4) :
    wrapLines 72 lineSeparator (chars valueToChar src ++ tail) =
      wrapLines 72 lineSeparator (chars valueToChar src) ++ tail := by
  have hlen := @length_chars valueToChar src
  apply wrapLines_append_of_fits
  · omega
  · omega

end Lines

section Tails
variable (lineSeparator : Bytes) (valueToChar : Fin 64 → Byte) (padCh : Byte)

/-- A source is a whole number of triples and at most two bytes more. -/
inductive Split (src : Bytes) : Bytes → Bytes → Prop where
  | even (h : src.length % 3 = 0) : Split src src []
  | one (whole : Bytes) (x : Byte) (h : whole.length % 3 = 0) (hs : src = whole ++ [x]) :
      Split src whole [x]
  | two (whole : Bytes) (x y : Byte) (h : whole.length % 3 = 0) (hs : src = whole ++ [x, y]) :
      Split src whole [x, y]

theorem split_src (src : Bytes) :
    Split src (src.take (src.length / 3 * 3)) (src.drop (src.length / 3 * 3)) := by
  have hsrc := List.take_append_drop (src.length / 3 * 3) src
  have hlen : (src.take (src.length / 3 * 3)).length = src.length / 3 * 3 :=
    List.length_take_of_le (Nat.div_mul_le_self _ _)
  have hleft : (src.drop (src.length / 3 * 3)).length = src.length % 3 := by
    rw [List.length_drop]
    omega
  generalize src.take (src.length / 3 * 3) = whole at *
  generalize src.drop (src.length / 3 * 3) = left at *
  have h3 : whole.length % 3 = 0 := by omega
  match left, hsrc, hleft with
  | [], hsrc, hleft =>
    rw [List.append_nil] at hsrc
    subst hsrc
    exact .even h3
  | [x], hsrc, _ => exact .one whole x h3 hsrc.symm
  | [x, y], hsrc, _ => exact .two whole x y h3 hsrc.symm
  | _ :: _ :: _ :: _, _, hleft =>
    simp only [List.length_cons] at hleft
    omega

/-- One byte is left: two characters of the last quad stand for nothing. -/
theorem text_one {src whole : Bytes} {x : Byte} (h : whole.length % 3 = 0)
    (hs : src = whole ++ [x]) :
    (encodeLoop (encoder lineSeparator valueToChar padCh) 0 whole).1 ++
        (encodeLoop (encoder lineSeparator valueToChar padCh)
          (encodeLoop (encoder lineSeparator valueToChar padCh) 0 whole).2 [x, 0, 0]).1 =
      wrapLines 72 lineSeparator (chars valueToChar src) ++ [valueToChar 0, valueToChar 0] := by
  have hlen : src.length = whole.length + 1 := by rw [hs, List.length_append]; rfl
  have hchars := @length_chars valueToChar src
  rw [encodeLoop_text h (by simp), chars_one h, ← hs]
  apply wrap_tail
  · omega
  · rw [List.length_cons, List.length_singleton]
    omega

/-- Two bytes are left: one character stands for nothing. -/
theorem text_two {src whole : Bytes} {x y : Byte} (h : whole.length % 3 = 0)
    (hs : src = whole ++ [x, y]) :
    (encodeLoop (encoder lineSeparator valueToChar padCh) 0 whole).1 ++
        (encodeLoop (encoder lineSeparator valueToChar padCh)
          (encodeLoop (encoder lineSeparator valueToChar padCh) 0 whole).2 [x, y, 0]).1 =
      wrapLines 72 lineSeparator (chars valueToChar src) ++ [valueToChar 0] := by
  have hlen : src.length = whole.length + 2 := by rw [hs, List.length_append]; rfl
  have hchars := @length_chars valueToChar src
  rw [encodeLoop_text h (by simp), chars_two h, ← hs]
  apply wrap_tail
  · omega
  · rw [List.length_singleton]
    omega

/-- The padding of the reference stands behind its last line. -/
theorem reference_padded (src : Bytes) : reference lineSeparator valueToChar padCh true src =
    wrapLines 72 lineSeparator (chars valueToChar src) ++
      List.replicate ((4 - (sixBits src).length % 4) % 4) padCh := by
  rw [reference, if_pos rfl, padded]
  have hlen := length_sixBits src
  have hchars := @length_chars valueToChar src
  by_cases h3 : src.length % 3 = 0
  · have hnone : (4 - (sixBits src).length % 4) % 4 = 0 := by omega
    rw [hnone]
    simp
  · apply wrap_tail h3
    rw [List.length_replicate]
    omega

theorem wrap32_sub (n k : ℤ) : wrap32 (wrap32 n - k) = wrap32 (n - k) := wrap32_add n (-k)

theorem length_lessOne (l : Bytes) (u : Byte) : ((l ++ [u]).length : ℤ) - 1 = l.length := by
  simp

theorem length_lessTwo (l : Bytes) (u v : Byte) : ((l ++ [u, v]).length : ℤ) - 2 = l.length := by
  simp

theorem set_last (l : Bytes) (u p : Byte) :
    (l ++ [u] ++ [0]).set ((l ++ [u]).length - 1) p = l ++ p :: [0] := by
  simp

theorem set_lastButOne (l : Bytes) (u v p : Byte) :
    (l ++ [u, v] ++ [0]).set ((l ++ [u, v]).length - 2) p = l ++ p :: [v, 0] := by
  simp

theorem set_lastTwo (l : Bytes) (u v p : Byte) :
    ((l ++ [u, v] ++ [0]).set ((l ++ [u, v]).length - 1) p).set ((l ++ [u, v]).length - 2) p =
      l ++ [p, p] ++ 0 :: [] := by
  simp

/-- What `dest` holds is the reference encoding and a NUL; its length is an `int`. -/
theorem encodeDest_eq (src : Bytes) (bPad : Bool) :
    (∃ rest, (encodeDest (encoder lineSeparator valueToChar padCh) src bPad).1 =
      reference lineSeparator valueToChar padCh bPad src ++ 0 :: rest) ∧
    (encodeDest (encoder lineSeparator valueToChar padCh) src bPad).2 =
      wrap32 (reference lineSeparator valueToChar padCh bPad src).length := by
  have hplain : reference lineSeparator valueToChar padCh false src =
      wrapLines 72 lineSeparator (chars valueToChar src) := rfl
  have hpadded := reference_padded lineSeparator valueToChar padCh src
  have hlen := length_sixBits src
  unfold encodeDest
  by_cases hne : src = []
  · subst hne
    rw [sixBits_nil, chars, sixBits_nil] at hpadded
    rw [chars, sixBits_nil] at hplain
    cases bPad with
    | true =>
      rw [hpadded]
      exact ⟨⟨[], by simp⟩, by simp [wrap32]⟩
    | false =>
      rw [hplain]
      exact ⟨⟨[], by simp⟩, by simp [wrap32]⟩
  · rw [if_neg hne]
    have hsplit := split_src src
    dsimp only
    generalize src.take (src.length / 3 * 3) = whole at hsplit
    generalize src.drop (src.length / 3 * 3) = left at hsplit
    cases hsplit with
    | even h =>
      have hnone : (4 - (sixBits src).length % 4) % 4 = 0 := by omega
      have htext := @encodeLoop_text lineSeparator valueToChar padCh _ h [] rfl
      rw [encodeLoop_nil, List.append_nil, List.append_nil] at htext
      rw [hnone, List.replicate_zero, List.append_nil] at hpadded
      dsimp only
      rw [htext]
      cases bPad with
      | true =>
        rw [hpadded]
        exact ⟨⟨[], rfl⟩, rfl⟩
      | false =>
        rw [hplain]
        exact ⟨⟨[], rfl⟩, rfl⟩
    | one _ x h hs =>
      have hlast : src.length = whole.length + 1 := by rw [hs, List.length_append]; rfl
      have htwo : (4 - (sixBits src).length % 4) % 4 = 2 := by omega
      rw [htwo] at hpadded
      dsimp only
      rw [text_one lineSeparator valueToChar padCh h hs]
      cases bPad with
      | true =>
        rw [if_pos rfl, set_lastTwo, hpadded]
        refine ⟨⟨[], rfl⟩, ?_⟩
        simp
      | false =>
        rw [if_neg Bool.false_ne_true, set_lastButOne, hplain]
        refine ⟨⟨_, rfl⟩, ?_⟩
        rw [wrap32_sub, length_lessTwo]
    | two _ x y h hs =>
      have hlast : src.length = whole.length + 2 := by rw [hs, List.length_append]; rfl
      have hone : (4 - (sixBits src).length % 4) % 4 = 1 := by omega
      rw [hone] at hpadded
      dsimp only
      rw [text_two lineSeparator valueToChar padCh h hs]
      cases bPad with
      | true =>
        rw [if_pos rfl, set_last, hpadded]
        refine ⟨⟨[], by simp [encoder]⟩, ?_⟩
        simp
      | false =>
        rw [if_neg Bool.false_ne_true, set_last, hplain]
        refine ⟨⟨_, rfl⟩, ?_⟩
        rw [wrap32_sub, length_lessOne]

/-- The text of the encoder up to its length is the reference encoding. -/
theorem base64EncodeEx_eq (src : Bytes) :
    base64EncodeEx (encoder lineSeparator valueToChar padCh) src false =
      reference lineSeparator valueToChar padCh false src := by
  have hplain : reference lineSeparator valueToChar padCh false src =
      wrapLines 72 lineSeparator (chars valueToChar src) := rfl
  unfold base64EncodeEx
  by_cases hne : src = []
  · subst hne
    rw [hplain, chars, sixBits_nil]
    simp
  · rw [if_neg hne, hplain]
    have hsplit := split_src src
    dsimp only
    generalize src.take (src.length / 3 * 3) = whole at hsplit
    generalize src.drop (src.length / 3 * 3) = left at hsplit
    cases hsplit with
    | even h =>
      have htext := @encodeLoop_text lineSeparator valueToChar padCh _ h [] rfl
      rw [encodeLoop_nil, List.append_nil, List.append_nil] at htext
      exact htext
    | one _ x h hs =>
      dsimp only
      rw [text_one lineSeparator valueToChar padCh h hs, if_neg Bool.false_ne_true]
      exact List.take_left' (by simp)
    | two _ x y h hs =>
      dsimp only
      rw [text_two lineSeparator valueToChar padCh h hs, if_neg Bool.false_ne_true]
      exact List.take_left' (by simp)

end Tails

section Encoding
variable (lineSeparator : Bytes) (valueToChar : Fin 64 → Byte) (padCh : Byte)

/-- Padding makes a text longer. -/
theorem length_reference_le (src : Bytes) (bPad : Bool) :
    (reference lineSeparator valueToChar padCh bPad src).length ≤
      (reference lineSeparator valueToChar padCh true src).length := by
  cases bPad with
  | true => exact le_rfl
  | false =>
    rw [reference_padded, List.length_append]
    exact Nat.le_add_right _ _

theorem reference_injective (h : Function.Injective valueToChar) :
    Function.Injective (reference [] valueToChar padCh false) := by
  intro s t hst
  have hchars (u : Bytes) :
      reference [] valueToChar padCh false u = (sixBits u).map valueToChar :=
    wrapLines_nil_sep (by decide)
  rw [hchars, hchars] at hst
  exact sixBits_injective (h.list_map hst)

/-- The encoder writes the reference encoding with a NUL behind it. Its length is right as long as
that of the filled-up encoding is an `int`. -/
theorem base64_encode_reference (src : Bytes) (bPad : Bool) :
    (∃ rest, (encodeDest (encoder lineSeparator valueToChar padCh) src bPad).1 =
      reference lineSeparator valueToChar padCh bPad src ++ 0 :: rest) ∧
    ((reference lineSeparator valueToChar padCh true src).length ≤ INT_MAX →
      (encodeDest (encoder lineSeparator valueToChar padCh) src bPad).2 =
        (reference lineSeparator valueToChar padCh bPad src).length) ∧
    (Function.Injective valueToChar → lineSeparator = [] →
      Function.Injective (reference lineSeparator valueToChar padCh false)) := by
  obtain ⟨hdest, hlen⟩ := encodeDest_eq lineSeparator valueToChar padCh src bPad
  have hle := length_reference_le lineSeparator valueToChar padCh src bPad
  refine ⟨hdest, fun hmax => ?_, fun hinj hsep => ?_⟩
  · rw [INT_MAX] at hmax
    rw [hlen, wrap32_eq (by omega) (by omega)]
  · rw [hsep]
    exact reference_injective valueToChar padCh hinj

/-- A source that fits an `int` with an encoding that does not. -/
theorem length_of_long_source :
    ((List.replicate 1610612736 (0 : Byte)).length : ℤ) ≤ INT_MAX ∧
    (encodeDest (encoder [] (fun v => UInt8.ofNat (v.val + 40)) 61)
        (List.replicate 1610612736 0) true).2 ≠
      (reference [] (fun v => UInt8.ofNat (v.val + 40)) 61 true
        (List.replicate 1610612736 0)).length := by
  obtain ⟨-, hlen⟩ := encodeDest_eq [] (fun v => UInt8.ofNat (v.val + 40)) 61
    (List.replicate 1610612736 0) true
  have hsrc : (List.replicate 1610612736 (0 : Byte)).length = 1610612736 := List.length_replicate
  have hsix := length_sixBits (List.replicate 1610612736 0)
  have htext : (reference [] (fun v => UInt8.ofNat (v.val + 40)) 61 true
      (List.replicate 1610612736 0)).length = 2147483648 := by
    rw [reference_padded, wrapLines_nil_sep (by decide), List.length_append, length_chars, hsix,
      hsrc, List.length_replicate]
  rw [hlen, htext, hsrc]
  exact ⟨by decide, by decide⟩

end Encoding

end DemoStorage.Base64Encoding
