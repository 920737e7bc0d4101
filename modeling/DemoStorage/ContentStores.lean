import Mathlib.Logic.Function.Basic
import Mathlib.Tactic.SplitIfs

/-!
# Stores of contents

A store keeps contents under names and logs what is done to them. Every name has a companion,
under which a content of its own may be kept; deleting a name deletes its companion too. A
session serves requests in their order and ends behind the first answer that does not keep it;
a server that marks a name is gone.
Where every name has an owner, a store falls into the parts of the owners.
-/

namespace DemoStorage.ContentStores

/-- The contents, and the log of operations on names. -/
structure Store (ν γ ο : Type*) where
  files : ν → Option γ
  log : List (ο × ν)

/-- A request, with the operation under which it is logged if it is. -/
inductive Request (ν γ ο : Type*) where
  | create (op : ο) (name : ν) (content : γ)
  | update (op : ο) (name : ν) (content : γ)
  | remove (op : ο) (name : ν)
  | delete (op : ο) (name : ν)
  | read (name : ν)
  | readCompanion (name : ν)
  | mark (name : ν)

inductive Answer (γ : Type*) where
  | done
  | existing
  | missing
  | content (c : γ)
  /-- there is a name, and nothing under its companion -/
  | nothing
  /-- the server is gone and does not answer -/
  | gone

/-- A session goes on behind every answer but three. -/
def Answer.keeps {γ : Type*} : Answer γ → Bool
  | .missing | .nothing | .gone => false
  | _ => true

def Answer.answered {γ : Type*} : Answer γ → Bool
  | .gone => false
  | _ => true

section
variable {ν γ ο : Type*} [DecidableEq ν] (companion : ν → ν)

namespace Store

def put (s : Store ν γ ο) (name : ν) (c : γ) : Store ν γ ο :=
  { s with files := Function.update s.files name (some c) }

def erase (s : Store ν γ ο) (name : ν) : Store ν γ ο :=
  { s with files := Function.update s.files name none }

def logged (s : Store ν γ ο) (op : ο) (name : ν) : Store ν γ ο :=
  { s with log := s.log ++ [(op, name)] }

/-- A request at the store. -/
def serve (s : Store ν γ ο) : Request ν γ ο → Store ν γ ο × Answer γ
  | .create op name c =>
    if (s.files name).isSome then (s, .existing) else ((s.put name c).logged op name, .done)
  | .update op name c => ((s.put name c).logged op name, .done)
  | .remove op name => ((s.erase name).logged op name, .done)
  | .delete op name =>
    if (s.files name).isNone then (s, .missing)
    else ((((s.erase name).logged op name).erase (companion name)).logged op (companion name), .done)
  | .read name => (s, (s.files name).elim .missing .content)
  | .readCompanion name =>
    (s, if (s.files name).isNone then .missing
      else (s.files (companion name)).elim .nothing .content)
  | .mark name => (s, if (s.files name).isNone then .missing else .gone)

/-- The store and the answers so far, behind each request that is served. -/
def session : Store ν γ ο → List (Answer γ) → List (Request ν γ ο) →
    List (Store ν γ ο × List (Answer γ))
  | _, _, [] => []
  | s, as, r :: rs =>
    let x := s.serve companion r
    (x.1, as ++ [x.2]) :: if x.2.keeps then session x.1 (as ++ [x.2]) rs else []

/-- The store behind requests of which all are served. -/
def replay (s : Store ν γ ο) (rs : List (Request ν γ ο)) : Store ν γ ο :=
  rs.foldl (fun s r => (s.serve companion r).1) s

end Store

/-- The store behind what has been served. -/
def Store.behind (s : Store ν γ ο) (xs : List (Store ν γ ο × List (Answer γ))) : Store ν γ ο :=
  xs.foldl (fun _ x => x.1) s

/-- The names whose contents a request may change. -/
def Request.names : Request ν γ ο → List ν
  | .create _ name _ | .update _ name _ | .remove _ name => [name]
  | .delete _ name => [name, companion name]
  | .read _ | .readCompanion _ | .mark _ => []

variable {companion}

/-- A request changes the contents of its names only. -/
theorem files_serve {s : Store ν γ ο} {r : Request ν γ ο} {name : ν}
    (h : name ∉ r.names companion) : (s.serve companion r).1.files name = s.files name := by
  cases r with
  | create op n c =>
    have hne : name ≠ n := by simpa [Request.names] using h
    simp only [Store.serve]
    split_ifs
    · rfl
    · simp [Store.put, Store.logged, hne]
  | update op n c =>
    have hne : name ≠ n := by simpa [Request.names] using h
    simp [Store.serve, Store.put, Store.logged, hne]
  | remove op n =>
    have hne : name ≠ n := by simpa [Request.names] using h
    simp [Store.serve, Store.erase, Store.logged, hne]
  | delete op n =>
    have hne : name ≠ n ∧ name ≠ companion n := by simpa [Request.names] using h
    simp only [Store.serve]
    split_ifs
    · rfl
    · simp [Store.erase, Store.logged, hne.1, hne.2]
  | read n => rfl
  | readCompanion n => rfl
  | mark n => rfl

/-- The content a request comes with. -/
def Request.brings : Request ν γ ο → Option γ
  | .create _ _ c | .update _ _ c => some c
  | _ => none

/-- What there is behind a request was there before it, or came with it. -/
theorem files_serve_origin {s : Store ν γ ο} {r : Request ν γ ο} {name : ν} {c : γ}
    (h : (s.serve companion r).1.files name = some c) : s.files name = some c ∨ r.brings = some c := by
  have hput (n : ν) (b : γ) (hn : Function.update s.files n (some b) name = some c) :
      s.files name = some c ∨ b = c := by
    rw [Function.update_apply] at hn
    split_ifs at hn
    · exact .inr (Option.some.inj hn)
    · exact .inl hn
  have herase (f : ν → Option γ) (n : ν) (hn : Function.update f n none name = some c) :
      f name = some c := by
    rw [Function.update_apply] at hn
    split_ifs at hn
    exact hn
  cases r with
  | create op n b =>
    simp only [Store.serve] at h
    split_ifs at h
    · exact .inl h
    · exact (hput n b h).imp_right (congrArg some)
  | update op n b => exact (hput n b h).imp_right (congrArg some)
  | remove op n => exact .inl (herase _ _ h)
  | delete op n =>
    simp only [Store.serve] at h
    split_ifs at h
    · exact .inl h
    · exact .inl (herase _ _ (herase _ _ h))
  | read n => exact .inl h
  | readCompanion n => exact .inl h
  | mark n => exact .inl h

theorem files_replay {s : Store ν γ ο} {rs : List (Request ν γ ο)} {name : ν}
    (h : ∀ r ∈ rs, name ∉ r.names companion) : (s.replay companion rs).files name = s.files name := by
  induction rs generalizing s with
  | nil => rfl
  | cons r rs ih =>
    have hrest := ih (s := (s.serve companion r).1) fun x hx => h x (List.mem_cons_of_mem _ hx)
    exact hrest.trans (files_serve (h r List.mem_cons_self))

/-- A session changes the contents of the names of its requests only. -/
theorem files_session {s : Store ν γ ο} {as : List (Answer γ)} {rs : List (Request ν γ ο)}
    {name : ν} (h : ∀ r ∈ rs, name ∉ r.names companion) {x : Store ν γ ο × List (Answer γ)}
    (hx : x ∈ s.session companion as rs) : x.1.files name = s.files name := by
  induction rs generalizing s as with
  | nil => cases hx
  | cons r rs ih =>
    have hserve := files_serve (s := s) (h r List.mem_cons_self)
    simp only [Store.session, List.mem_cons] at hx
    rcases hx with rfl | hx
    · exact hserve
    · split_ifs at hx
      · exact (ih (fun q hq => h q (List.mem_cons_of_mem _ hq)) hx).trans hserve
      · cases hx

/-- When a session serves all of its requests, its last answer is that of the store behind the
others. -/
theorem session_last {s : Store ν γ ο} {as : List (Answer γ)} {rs : List (Request ν γ ο)}
    {r : Request ν γ ο}
    (h : (s.session companion as (rs ++ [r])).length = (rs ++ [r]).length) :
    ∃ t bs, (s.session companion as (rs ++ [r])).getLast? =
      some (t, bs ++ [((s.replay companion rs).serve companion r).2]) := by
  induction rs generalizing s as with
  | nil =>
    refine ⟨(s.serve companion r).1, as, ?_⟩
    simp [Store.session, Store.replay]
  | cons q rs ih =>
    simp only [List.cons_append, Store.session, List.length_cons, Nat.add_right_cancel_iff] at h ⊢
    split_ifs at h ⊢ with hkeeps
    · obtain ⟨t, bs, hlast⟩ := ih h
      refine ⟨t, bs, ?_⟩
      rw [List.getLast?_cons, hlast]
      rfl
    · simp at h

section Parts
variable {ι : Type*} [DecidableEq ι] {owner : ν → ι} {i : ι}

theorem Store.put_put (s : Store ν γ ο) (name : ν) (b c : γ) :
    (s.put name b).put name c = s.put name c := by
  simp [Store.put]

/-- The names of one owner: their contents, and the log of what has been done to them. -/
def Store.part (owner : ν → ι) (i : ι) (s : Store ν γ ο) : Store ν γ ο where
  files name := if owner name = i then s.files name else none
  log := s.log.filter fun x => owner x.2 = i

omit [DecidableEq ν] in
theorem Store.files_part (s : Store ν γ ο) {name : ν} (h : owner name = i) :
    (s.part owner i).files name = s.files name := if_pos h

/-- A change of the names of one owner. -/
structure Confined (owner : ν → ι) (i : ι) (f : Store ν γ ο → Store ν γ ο) : Prop where
  own : ∀ s, (f s).part owner i = f (s.part owner i)
  other : ∀ s j, j ≠ i → (f s).part owner j = s.part owner j

namespace Confined

omit [DecidableEq ν] in
theorem id : Confined owner i fun s : Store ν γ ο => s := ⟨fun _ => rfl, fun _ _ _ => rfl⟩

theorem update {name : ν} (h : owner name = i) (o : Option γ) :
    Confined owner i fun s : Store ν γ ο => { s with files := Function.update s.files name o } where
  own s := by
    refine congrArg (Store.mk · _) (funext fun m => ?_)
    by_cases hm : m = name
    · subst hm
      simp [h]
    · simp [Store.part, hm]
  other s j hj := by
    refine congrArg (Store.mk · _) (funext fun m => ?_)
    by_cases hm : m = name
    · subst hm
      have hne : owner m ≠ j := fun hmj => hj (hmj.symm.trans h)
      simp [hne]
    · simp [hm]

theorem put {name : ν} (h : owner name = i) (c : γ) :
    Confined owner i fun s : Store ν γ ο => s.put name c := update h (some c)

theorem erase {name : ν} (h : owner name = i) :
    Confined owner i fun s : Store ν γ ο => s.erase name := update h none

omit [DecidableEq ν] in
theorem logged {name : ν} (h : owner name = i) (op : ο) :
    Confined owner i fun s : Store ν γ ο => s.logged op name where
  own s := by simp [Store.part, Store.logged, h]
  other s j hj := by
    have hne : owner name ≠ j := fun hmj => hj (hmj.symm.trans h)
    simp [Store.part, Store.logged, hne]

end Confined

/-- The names a request is about. -/
def Request.about (companion : ν → ν) : Request ν γ ο → List ν
  | .create _ name _ | .update _ name _ | .remove _ name | .read name | .mark name => [name]
  | .delete _ name | .readCompanion name => [name, companion name]

/-- A request about names of one owner is served by the owner's part. -/
theorem Store.serve_part (s : Store ν γ ο) {r : Request ν γ ο}
    (h : ∀ name ∈ r.about companion, owner name = i) :
    (s.part owner i).serve companion r =
      ((s.serve companion r).1.part owner i, (s.serve companion r).2) := by
  have hput (name : ν) (c : γ) (hn : owner name = i) (t : Store ν γ ο) :=
    (Confined.put hn c).own t
  have herase (name : ν) (hn : owner name = i) (t : Store ν γ ο) := (Confined.erase hn).own t
  have hlogged (name : ν) (op : ο) (hn : owner name = i) (t : Store ν γ ο) :=
    (Confined.logged hn op).own t
  cases r with
  | create op name c =>
    have hn : owner name = i := by simpa [Request.about] using h
    simp only [Store.serve, s.files_part hn]
    split_ifs
    · rfl
    · rw [hlogged _ _ hn, hput _ _ hn]
  | update op name c =>
    have hn : owner name = i := by simpa [Request.about] using h
    simp only [Store.serve]
    rw [hlogged _ _ hn, hput _ _ hn]
  | remove op name =>
    have hn : owner name = i := by simpa [Request.about] using h
    simp only [Store.serve]
    rw [hlogged _ _ hn, herase _ hn]
  | delete op name =>
    obtain ⟨hn, hc⟩ : owner name = i ∧ owner (companion name) = i := by
      simpa [Request.about] using h
    simp only [Store.serve, s.files_part hn]
    split_ifs
    · rfl
    · rw [hlogged _ _ hc, herase _ hc, hlogged _ _ hn, herase _ hn]
  | read name =>
    have hn : owner name = i := by simpa [Request.about] using h
    simp only [Store.serve, s.files_part hn]
  | readCompanion name =>
    obtain ⟨hn, hc⟩ : owner name = i ∧ owner (companion name) = i := by
      simpa [Request.about] using h
    simp only [Store.serve, s.files_part hn, s.files_part hc]
  | mark name =>
    have hn : owner name = i := by simpa [Request.about] using h
    simp only [Store.serve, s.files_part hn]

/-- So is a session of such requests. -/
theorem Store.session_part (s : Store ν γ ο) {as : List (Answer γ)} {rs : List (Request ν γ ο)}
    (h : ∀ r ∈ rs, ∀ name ∈ r.about companion, owner name = i) :
    (s.part owner i).session companion as rs =
      (s.session companion as rs).map fun x => (x.1.part owner i, x.2) := by
  induction rs generalizing s as with
  | nil => rfl
  | cons r rs ih =>
    have hrest := fun t bs => @ih t bs fun q hq => h q (List.mem_cons_of_mem _ hq)
    simp only [Store.session, s.serve_part (h r List.mem_cons_self), List.map_cons]
    split_ifs
    · rw [hrest]
    · rfl

omit [DecidableEq ν] in
theorem Store.behind_part (s : Store ν γ ο) (xs : List (Store ν γ ο × List (Answer γ))) :
    (s.part owner i).behind (xs.map fun x => (x.1.part owner i, x.2)) =
      (s.behind xs).part owner i := by
  induction xs generalizing s with
  | nil => rfl
  | cons x xs ih => exact ih x.1

end Parts

end
end DemoStorage.ContentStores
