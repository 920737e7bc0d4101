import DemoStorage.ByteStrings

/-!
# Lexical resolution of path names

A path is a list of components over an arbitrary type of names. `resolveFrom` applies
them one after the other without asking whether the directories on the way exist. A list
of components is confined when it never climbs above the place it starts from and ends
strictly below it; confinement is decided by counting depths and does not depend on the
starting place.
-/

namespace DemoStorage.LexicalPaths
open ByteStrings

inductive Component (α : Type*) where
  | stay
  | up
  | name (a : α)
  deriving DecidableEq

section Resolution
variable {α : Type*}

/-- The place one component leads to; above the root there is only the root. -/
def Component.apply (cur : List α) : Component α → List α
  | .stay => cur
  | .up => cur.dropLast
  | .name a => cur ++ [a]

def resolveFrom (cur : List α) (cs : List (Component α)) : List α := cs.foldl Component.apply cur

@[simp] theorem resolveFrom_nil (cur : List α) : resolveFrom cur [] = cur := rfl

@[simp] theorem resolveFrom_cons (cur : List α) (c : Component α) (cs : List (Component α)) :
    resolveFrom cur (c :: cs) = resolveFrom (c.apply cur) cs := rfl

@[simp] theorem resolveFrom_append (cur : List α) (cs ds : List (Component α)) :
    resolveFrom cur (cs ++ ds) = resolveFrom (resolveFrom cur cs) ds := List.foldl_append

theorem length_resolveFrom_le (cur : List α) (cs : List (Component α)) :
    (resolveFrom cur cs).length ≤ cur.length + cs.length := by
  induction cs generalizing cur with
  | nil => simp
  | cons c cs ih =>
    have hc : (c.apply cur).length ≤ cur.length + 1 := by
      cases c with
      | stay => simp [Component.apply]
      | up =>
        simp [Component.apply]
        omega
      | name a => simp [Component.apply]
    have := ih (c.apply cur)
    simp only [resolveFrom_cons, List.length_cons]
    omega

/-- Depth below the starting place, `none` once a component climbs above it. -/
def depthAfter : ℕ → List (Component α) → Option ℕ
  | d, [] => some d
  | d, .stay :: cs => depthAfter d cs
  | 0, .up :: _ => none
  | d + 1, .up :: cs => depthAfter d cs
  | d, .name _ :: cs => depthAfter (d + 1) cs

/-- The depth count is faithful: what was there before the walk began stays below it. -/
theorem resolveFrom_of_depthAfter {cs : List (Component α)} {l : List α} {d : ℕ}
    (h : depthAfter l.length cs = some d) :
    ∃ l', l'.length = d ∧ ∀ cur, resolveFrom (cur ++ l) cs = cur ++ l' := by
  induction cs generalizing l with
  | nil => exact ⟨l, by simpa [depthAfter] using h, fun cur => rfl⟩
  | cons c cs ih =>
    cases c with
    | stay => exact ih h
    | up =>
      obtain rfl | ⟨l, a, rfl⟩ := List.eq_nil_or_concat l
      · simp [depthAfter] at h
      · simp only [List.concat_eq_append, List.length_append, List.length_singleton,
          depthAfter] at h
        obtain ⟨l', hl, hr⟩ := ih h
        refine ⟨l', hl, fun cur => ?_⟩
        rw [← hr cur, resolveFrom_cons]
        simp [Component.apply, ← List.append_assoc]
    | name a =>
      have hlen : (l ++ [a]).length = l.length + 1 := by simp
      simp only [depthAfter, ← hlen] at h
      obtain ⟨l', hl, hr⟩ := ih h
      exact ⟨l', hl, fun cur => by simpa [Component.apply] using hr cur⟩

/-- Strictly below a directory. -/
def Inside (dir loc : List α) : Prop := ∃ l, l ≠ [] ∧ loc = dir ++ l

/-- The components never climb above their start and end strictly below it. -/
def Confined (cs : List (Component α)) : Prop := ∃ d, depthAfter 0 cs = some (d + 1)

instance (cs : List (Component α)) : Decidable (Confined cs) :=
  match h : depthAfter 0 cs with
  | none => isFalse fun ⟨d, hd⟩ => by simp [h] at hd
  | some 0 => isFalse fun ⟨d, hd⟩ => by simp [h] at hd
  | some (d + 1) => isTrue ⟨d, h⟩

theorem Confined.inside {cs : List (Component α)} (h : Confined cs) (cur : List α) :
    Inside cur (resolveFrom cur cs) := by
  obtain ⟨d, hd⟩ := h
  obtain ⟨l, hl, hr⟩ := resolveFrom_of_depthAfter (l := []) hd
  refine ⟨l, fun he => by simp [he] at hl, ?_⟩
  simpa using hr cur

theorem Inside.take_eq {dir loc : List α} (h : Inside dir loc) : loc.take dir.length = dir := by
  obtain ⟨l, -, rfl⟩ := h
  exact List.take_left

/-- Putting a name in the place of the last component does not lead out of a directory. -/
theorem Inside.of_apply {dir cur : List α} {c : Component α} (h : Inside dir (c.apply cur)) (a : α) :
    Inside dir (cur ++ [a]) := by
  obtain ⟨l, hl, he⟩ := h
  cases c with
  | stay => exact ⟨l ++ [a], by simp, by simpa [Component.apply, ← List.append_assoc] using he⟩
  | up =>
    have hne : cur ≠ [] := by
      rintro rfl
      simp [Component.apply, hl] at he
    refine ⟨l ++ [cur.getLast hne, a], by simp, ?_⟩
    have hcur : cur.dropLast = dir ++ l := he
    calc cur ++ [a] = cur.dropLast ++ [cur.getLast hne] ++ [a] := by
          rw [List.dropLast_append_getLast hne]
      _ = dir ++ (l ++ [cur.getLast hne, a]) := by simp [hcur]
  | name b =>
    obtain rfl | ⟨l, d, rfl⟩ := List.eq_nil_or_concat l
    · exact absurd rfl hl
    · rw [List.concat_eq_append, ← List.append_assoc] at he
      have hcur : cur = dir ++ l := (List.append_inj' he rfl).1
      exact ⟨l ++ [a], by simp, by rw [hcur, List.append_assoc]⟩

end Resolution

section Bytes

def slash : Byte := 47

/-- An empty component and `.` stay in place, `..` climbs. -/
def component (c : Bytes) : Component Bytes :=
  if c = [] ∨ c = [46] then .stay else if c = [46, 46] then .up else .name c

def components (p : Bytes) : List (Component Bytes) := (p.splitOn slash).map component

theorem components_append_slash (a b : Bytes) :
    components (a ++ slash :: b) = components a ++ components b := by
  simp [components, List.splitOn_append_cons_self]

theorem components_ne_nil (p : Bytes) : components p ≠ [] := by simp [components]

theorem components_of_notMem {p : Bytes} (h : slash ∉ p) : components p = [component p] := by
  simp [components, List.splitOn_eq_singleton h]

theorem component_name {c : Bytes} (h0 : c ≠ []) (h1 : c ≠ [46]) (h2 : c ≠ [46, 46]) :
    component c = .name c := by
  simp [component, h0, h1, h2]

/-- An absolute path starts at the root, any other at the working directory. -/
def start (cwd : List Bytes) (p : Bytes) : List Bytes := if p.head? = some slash then [] else cwd

/-- The place a path names once `.`, `..` and repeated slashes are resolved lexically. -/
def lexical (cwd : List Bytes) (p : Bytes) : List Bytes := resolveFrom (start cwd p) (components p)

theorem lexical_append_slash (cwd : List Bytes) (a b : Bytes) (ha : a ≠ []) :
    lexical cwd (a ++ slash :: b) = resolveFrom (lexical cwd a) (components b) := by
  have hs : start cwd (a ++ slash :: b) = start cwd a := by
    cases a with
    | nil => exact absurd rfl ha
    | cons x a => rfl
  rw [lexical, components_append_slash, resolveFrom_append, hs, lexical]

/-- Appending bytes without a slash changes only the last component. -/
theorem components_append_of_notMem (p : Bytes) {s : Bytes} (hs : slash ∉ s) :
    ∃ cs last, components p = cs ++ [component last] ∧
      components (p ++ s) = cs ++ [component (last ++ s)] := by
  induction hn : p.length using Nat.strong_induction_on generalizing p with
  | _ n ih =>
    by_cases hp : slash ∈ p
    · obtain ⟨a, b, rfl⟩ := List.append_of_mem hp
      obtain ⟨cs, last, h1, h2⟩ := ih b.length (by simp at hn; omega) b rfl
      refine ⟨components a ++ cs, last, ?_, ?_⟩
      · rw [components_append_slash, h1, List.append_assoc]
      · rw [List.append_assoc, List.cons_append, components_append_slash, h2, List.append_assoc]
    · refine ⟨[], p, components_of_notMem hp, ?_⟩
      rw [components_of_notMem (by simp [hp, hs])]
      rfl

/-- A suffix without a slash that makes every last component a name leads to another place. -/
theorem lexical_append_ne (cwd : List Bytes) {p s : Bytes} (hp : p ≠ []) (hs : slash ∉ s)
    (hne : s ≠ []) (hname : ∀ c, component (c ++ s) = .name (c ++ s)) :
    lexical cwd (p ++ s) ≠ lexical cwd p := by
  obtain ⟨cs, last, h1, h2⟩ := components_append_of_notMem p hs
  have hstart : start cwd (p ++ s) = start cwd p := by
    cases p with
    | nil => exact absurd rfl hp
    | cons x p => rfl
  rw [lexical, lexical, h1, h2, hname, hstart, resolveFrom_append, resolveFrom_append]
  generalize resolveFrom (start cwd p) cs = d
  intro he
  have hlen := congrArg List.length he
  cases hc : component last with
  | stay => simp [hc, Component.apply] at hlen
  | up =>
    simp [hc, Component.apply] at hlen
    omega
  | name a =>
    have ha : a = last := by
      unfold component at hc
      split_ifs at hc
      exact (Component.name.inj hc).symm
    simp [hc, ha, Component.apply, hne] at he

end Bytes
end DemoStorage.LexicalPaths
