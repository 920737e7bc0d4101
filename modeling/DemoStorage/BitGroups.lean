import DemoStorage.CutLists
import Mathlib.Algebra.Group.Nat.Defs
import Mathlib.Data.Fin.Basic
import Mathlib.Data.List.Induction
import Mathlib.Logic.Function.Basic

/-!
# Bytes as groups of six bits

The bits of a byte string, most significant first, are cut in groups of six; the last group is
filled up with zeros. Three bytes are four groups, and a byte string can be told from its
groups.
-/

namespace DemoStorage.BitGroups
open CutLists

/-- The bits of a byte, most significant first. -/
def bits (b : UInt8) : List Bool := (List.range 8).map fun i => b.toNat.testBit (7 - i)

/-- The number that bits write. -/
def value (bs : List Bool) : ℕ := bs.foldl (fun v b => 2 * v + b.toNat) 0

/-- Six bits as a number; missing ones count as zeros behind. -/
def group (bs : List Bool) : Fin 64 :=
  Fin.ofNat 64 (value (bs ++ List.replicate (6 - bs.length) false))

/-- The bits of a byte string in groups of six. -/
def sixBits (s : List UInt8) : List (Fin 64) := (cutEvery 6 (s.flatMap bits)).map group

/-- The four groups of a number of three bytes. -/
def quad (n : ℕ) : List (Fin 64) :=
  [n / 262144, n / 4096, n / 64, n].map (Fin.ofNat 64)

theorem length_quad (n : ℕ) : (quad n).length = 4 := rfl

/-- Three bytes as a number. -/
def combined (a b c : UInt8) : ℕ := a.toNat * 65536 + b.toNat * 256 + c.toNat

section Groups

theorem bits_eq (b : UInt8) : bits b = [b.toNat.testBit 7, b.toNat.testBit 6, b.toNat.testBit 5,
    b.toNat.testBit 4, b.toNat.testBit 3, b.toNat.testBit 2, b.toNat.testBit 1,
    b.toNat.testBit 0] := rfl

private theorem group_four (x y z u : Bool) :
    group [x, y, z, u] = group [x, y, z, u, false, false] := rfl

private theorem group_two (x y : Bool) :
    group [x, y] = group [x, y, false, false, false, false] := rfl

theorem sixBits_nil : sixBits [] = [] := by
  rw [sixBits, List.flatMap_nil, cutEvery_nil]
  rfl

theorem value_concat (bs : List Bool) (b : Bool) : value (bs ++ [b]) = 2 * value bs + b.toNat := by
  rw [value, List.foldl_append]
  rfl

theorem value_lt (bs : List Bool) : value bs < 2 ^ bs.length := by
  induction bs using List.reverseRecOn with
  | nil => decide
  | append_singleton bs b ih =>
    have hb := b.toNat_le
    rw [value_concat, List.length_append, List.length_singleton, Nat.pow_succ]
    omega

theorem value_append (bs bs' : List Bool) :
    value (bs ++ bs') = value bs * 2 ^ bs'.length + value bs' := by
  induction bs' using List.reverseRecOn with
  | nil => simp [value]
  | append_singleton bs' b ih =>
    rw [← List.append_assoc, value_concat, ih, value_concat, List.length_append,
      List.length_singleton, Nat.pow_succ, ← Nat.mul_assoc]
    omega

/-- Bits in the middle are taken out by a division and a remainder. -/
theorem value_middle (front mid back : List Bool) :
    value (front ++ mid ++ back) / 2 ^ back.length % 2 ^ mid.length = value mid := by
  rw [value_append, Nat.mul_comm, Nat.mul_add_div (Nat.two_pow_pos _),
    Nat.div_eq_of_lt (value_lt back), Nat.add_zero, value_append,
    Nat.mul_add_mod_of_lt (value_lt mid)]

private theorem halves (n k : ℕ) : n / 2 ^ k = 2 * (n / 2 ^ (k + 1)) + (n.testBit k).toNat := by
  rw [Nat.toNat_testBit, Nat.pow_succ, ← Nat.div_div_eq_div_mul]
  omega

/-- A byte is what its bits write. -/
theorem value_bits (b : UInt8) : value (bits b) = b.toNat := by
  have htop : b.toNat / 2 ^ 8 = 0 := Nat.div_eq_of_lt b.toNat_lt
  have hbits := halves b.toNat 0
  rw [halves _ 1, halves _ 2, halves _ 3, halves _ 4, halves _ 5, halves _ 6, halves _ 7, htop,
    Nat.pow_zero, Nat.div_one] at hbits
  exact hbits.symm

theorem group_val {bs : List Bool} (h : bs.length = 6) : (group bs).val = value bs := by
  have hlt := value_lt bs
  rw [h] at hlt
  rw [group, h, Nat.sub_self, List.replicate_zero, List.append_nil, Fin.val_ofNat]
  exact Nat.mod_eq_of_lt hlt

private theorem cutEvery_six (x y z u v w : Bool) (s : List Bool) :
    cutEvery 6 (x :: y :: z :: u :: v :: w :: s) = [x, y, z, u, v, w] :: cutEvery 6 s :=
  cutEvery_append (l := [x, y, z, u, v, w]) (by decide) rfl

/-- The groups of a number of 24 bits are those of the bits. -/
theorem quad_value {xs ys zs us : List Bool} (hx : xs.length = 6) (hy : ys.length = 6)
    (hz : zs.length = 6) (hu : us.length = 6) :
    quad (value (xs ++ (ys ++ (zs ++ us)))) =
      (cutEvery 6 (xs ++ (ys ++ (zs ++ us)))).map group := by
  have h1 := value_middle [] xs (ys ++ (zs ++ us))
  have h2 := value_middle xs ys (zs ++ us)
  have h3 := value_middle (xs ++ ys) zs us
  have h4 := value_middle (xs ++ ys ++ zs) us []
  simp only [List.length_append, hx, hy, hz, hu, List.nil_append, List.append_nil,
    List.length_nil, Nat.pow_zero, Nat.div_one, List.append_assoc] at h1 h2 h3 h4
  have hcut : cutEvery 6 (xs ++ (ys ++ (zs ++ us))) = [xs, ys, zs, us] := by
    have hne : us ≠ [] := by
      rintro rfl
      cases hu
    rw [cutEvery_append (by decide) hx, cutEvery_append (by decide) hy,
      cutEvery_append (by decide) hz, cutEvery_short hne hu.le]
  rw [hcut]
  simp only [quad, List.map_cons, List.map_nil, List.cons.injEq, and_true, Fin.ext_iff,
    Fin.val_ofNat, group_val hx, group_val hy, group_val hz, group_val hu]
  exact ⟨h1, h2, h3, h4⟩

theorem length_bits (b : UInt8) : (bits b).length = 8 := rfl

theorem combined_eq_value (a b c : UInt8) :
    combined a b c = value (bits a ++ bits b ++ bits c) := by
  rw [value_append, value_append, value_bits, value_bits, value_bits, length_bits, length_bits,
    combined]
  omega

/-- The groups of three bytes are those of their bits. -/
theorem quad_combined (a b c : UInt8) :
    quad (combined a b c) = (cutEvery 6 (bits a ++ bits b ++ bits c)).map group := by
  have hslices : bits a ++ bits b ++ bits c = (bits a).take 6 ++ (((bits a).drop 6 ++
      (bits b).take 4) ++ (((bits b).drop 4 ++ (bits c).take 2) ++ (bits c).drop 2)) := rfl
  rw [combined_eq_value, hslices]
  exact quad_value rfl rfl rfl rfl

/-- Three bytes are four groups. -/
theorem sixBits_cons (a b c : UInt8) (s : List UInt8) :
    sixBits (a :: b :: c :: s) = quad (combined a b c) ++ sixBits s := by
  rw [quad_combined, sixBits, sixBits]
  simp only [List.flatMap_cons, bits_eq, List.cons_append, List.nil_append, cutEvery_six,
    cutEvery_nil, List.map_cons, List.map_nil]

private theorem cutEvery_two (x y : Bool) : cutEvery 6 [x, y] = [[x, y]] :=
  cutEvery_short (List.cons_ne_nil _ _) (by simp)

private theorem cutEvery_four (x y z u : Bool) : cutEvery 6 [x, y, z, u] = [[x, y, z, u]] :=
  cutEvery_short (List.cons_ne_nil _ _) (by simp)

/-- The groups of one byte, with zeros behind them, are four. -/
theorem sixBits_one (x : UInt8) : quad (combined x 0 0) = sixBits [x] ++ [0, 0] := by
  have hzero : bits 0 = List.replicate 8 false := rfl
  rw [quad_combined, hzero, sixBits]
  simp only [List.flatMap_cons, List.flatMap_nil, bits_eq, List.append_nil, List.cons_append,
    List.replicate, List.nil_append, cutEvery_six, cutEvery_nil, cutEvery_two, List.map_cons,
    List.map_nil, group_two]
  rfl

/-- The groups of two bytes with a zero behind them are four. -/
theorem sixBits_two (x y : UInt8) : quad (combined x y 0) = sixBits [x, y] ++ [0] := by
  have hzero : bits 0 = List.replicate 8 false := rfl
  rw [quad_combined, hzero, sixBits]
  simp only [List.flatMap_cons, List.flatMap_nil, bits_eq, List.append_nil, List.cons_append,
    List.replicate, List.nil_append, cutEvery_six, cutEvery_nil, cutEvery_four, List.map_cons,
    List.map_nil, group_four]
  rfl

/-- Induction over a byte string three bytes at a time. -/
@[elab_as_elim] theorem byThrees {P : List UInt8 → Prop} (nil : P []) (one : ∀ x, P [x])
    (two : ∀ x y, P [x, y]) (cons : ∀ a b c s, P s → P (a :: b :: c :: s)) : ∀ s, P s
  | [] => nil
  | [x] => one x
  | [x, y] => two x y
  | a :: b :: c :: s => cons a b c s (byThrees nil one two cons s)

theorem sixBits_append {s : List UInt8} (hs : s.length % 3 = 0) (t : List UInt8) :
    sixBits (s ++ t) = sixBits s ++ sixBits t := by
  induction s using byThrees with
  | nil => rw [sixBits_nil, List.nil_append, List.nil_append]
  | one x => simp at hs
  | two x y => simp at hs
  | cons a b c s ih =>
    have hrest := ih (by simp only [List.length_cons] at hs; omega)
    simp only [List.cons_append, sixBits_cons, hrest, List.append_assoc]

theorem length_sixBits (s : List UInt8) : (sixBits s).length = (8 * s.length + 5) / 6 := by
  induction s using byThrees with
  | nil => rw [sixBits_nil]; rfl
  | one x =>
    have h := congrArg List.length (sixBits_one x)
    simp only [List.length_append, length_quad, List.length_cons, List.length_nil] at h ⊢
    omega
  | two x y =>
    have h := congrArg List.length (sixBits_two x y)
    simp only [List.length_append, length_quad, List.length_cons, List.length_nil] at h ⊢
    omega
  | cons a b c s ih =>
    rw [sixBits_cons, List.length_append, length_quad, ih]
    simp only [List.length_cons]
    omega

end Groups

section Injectivity

theorem quad_inj {a b c x y z : UInt8} (h : quad (combined a b c) = quad (combined x y z)) :
    a = x ∧ b = y ∧ c = z := by
  have ha := a.toNat_lt
  have hb := b.toNat_lt
  have hc := c.toNat_lt
  have hx := x.toNat_lt
  have hy := y.toNat_lt
  have hz := z.toNat_lt
  simp only [quad, combined, List.map_cons, List.map_nil, List.cons.injEq, and_true,
    Fin.ext_iff, Fin.val_ofNat] at h
  have hn : a.toNat * 65536 + b.toNat * 256 + c.toNat =
      x.toNat * 65536 + y.toNat * 256 + z.toNat := by
    omega
  clear h
  refine ⟨UInt8.toNat_inj.mp ?_, UInt8.toNat_inj.mp ?_, UInt8.toNat_inj.mp ?_⟩
  · omega
  · omega
  · omega

/-- A byte string can be told from its groups. -/
theorem sixBits_injective : Function.Injective sixBits := by
  intro s t h
  have hlen := congrArg List.length h
  rw [length_sixBits, length_sixBits] at hlen
  have hst : s.length = t.length := by omega
  induction s using byThrees generalizing t with
  | nil => exact (List.length_eq_zero_iff.mp hst.symm).symm
  | one x =>
    obtain ⟨y, rfl⟩ := List.length_eq_one_iff.mp hst.symm
    have hquad : quad (combined x 0 0) = quad (combined y 0 0) := by
      rw [sixBits_one, sixBits_one, h]
    rw [(quad_inj hquad).1]
  | two x y =>
    obtain ⟨z, u, rfl⟩ := List.length_eq_two.mp hst.symm
    have hquad : quad (combined x y 0) = quad (combined z u 0) := by
      rw [sixBits_two, sixBits_two, h]
    obtain ⟨hx, hy, -⟩ := quad_inj hquad
    rw [hx, hy]
  | cons a b c s ih =>
    match t, hst with
    | x :: y :: z :: t, hst =>
      rw [sixBits_cons, sixBits_cons] at h
      have hlengths : (quad (combined a b c)).length = (quad (combined x y z)).length := by
        rw [length_quad, length_quad]
      obtain ⟨hquad, hrest⟩ := List.append_inj h hlengths
      obtain ⟨rfl, rfl, rfl⟩ := quad_inj hquad
      have hst' : s.length = t.length := by simpa using hst
      rw [ih hrest (by rw [hst']) hst']

end Injectivity

end DemoStorage.BitGroups
