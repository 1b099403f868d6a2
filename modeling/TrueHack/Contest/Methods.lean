-- SUMMARY: All methods of the in-memory storage, and what they answer whoever calls them: the log of the calls decides.
import TrueHack.Base.History
import TrueHack.Contest.Storage

/-!
# The methods of the storage

The storage has two methods that no handler calls, and both remove entries. For
whoever calls the methods, a key is bound to what the calls before have left there,
and what a method answers can be read off these calls.
-/

namespace Storage

open SharedObject

variable {K V : Type} [DecidableEq K]

namespace InMemory

def remove (s : InMemory K V) (k : K) : InMemory K V := ⟨s.data.erase k⟩

/-- `RemoveAll` stores a new map. -/
def removeAll (_ : InMemory K V) : InMemory K V := ⟨∅⟩

theorem get_remove (s : InMemory K V) (k k' : K) :
    (s.remove k).get k' = if k' = k then none else s.get k' := by
  split
  · rename_i h
    rw [h]
    exact Finmap.lookup_erase k s.data
  · rename_i h
    exact Finmap.lookup_erase_ne h

end InMemory

/-- A method of the storage. -/
inductive Method (K V : Type) where
  | put (k : K) (v : V)
  | get (k : K)
  | getAll
  | remove (k : K)
  | removeAll

/-- What a method returns. -/
def Method.Res : Method K V → Type
  | .put _ _ | .remove _ | .removeAll => Unit
  | .get _ => Option V
  | .getAll => List V

/-- The storage with all its methods as a shared object. -/
def methods [DecidableEq V] : SharedObject (InMemory K V) (List V) (Method K V) Method.Res where
  init := .new
  apply s m order := match m with
    | .put k v => some ((), s.put k v)
    | .get k => some (s.get k, s)
    | .getAll => (s.getAll order).map fun l => (l, s)
    | .remove k => some ((), s.remove k)
    | .removeAll => some ((), s.removeAll)

/-! ## The log -/

/-- What a method leaves at `k`, where there was `old`. -/
def Method.leaves (k : K) (m : Method K V) (old : Option V) : Option V :=
  match m with
  | .put k' v => if k = k' then some v else old
  | .get _ | .getAll => old
  | .remove k' => if k = k' then none else old
  | .removeAll => none

/-- What the calls of `log`, the latest first, have left at `k`. -/
def latest (log : List (Method K V × List V)) (k : K) : Option V :=
  log.foldr (fun call old => call.1.leaves k old) none

/-- What a method can answer after the calls of `log`. `GetAll` answers with what is left at
    the keys in some order. -/
def Answers (log : List (Method K V × List V)) : (m : Method K V) → m.Res → Prop
  | .put _ _, _ | .remove _, _ | .removeAll, _ => True
  | .get k, found => found = latest log k
  | .getAll, l => ∃ keys : List K, keys.Nodup ∧ (∀ k, k ∈ keys ↔ (latest log k).isSome = true) ∧
      keys.map (latest log) = List.map some l

variable [DecidableEq V] {s t : InMemory K V} {log : List (Method K V × List V)}

/-- A call leaves at every key what its method leaves there. -/
theorem get_of_apply {m : Method K V} {order : List V} {r : m.Res}
    (h : methods.apply s m order = some (r, t)) (k : K) : t.get k = m.leaves k (s.get k) := by
  cases m with
  | put k' v =>
      cases h
      exact InMemory.get_put s k' k v
  | get k' =>
      cases h
      rfl
  | getAll =>
      obtain ⟨l, _, hl⟩ := Option.map_eq_some_iff.mp h
      cases hl
      rfl
  | remove k' =>
      cases h
      exact InMemory.get_remove s k' k
  | removeAll =>
      cases h
      rfl

/-- A key is bound to what the calls have left there. -/
theorem get_eq_latest (hrun : methods.atomically.Run log s) : s.get = latest log := by
  induction hrun with
  | init => rfl
  | @step log s t call hrun hstep ih =>
      obtain ⟨⟨r, t'⟩, happ, rfl⟩ := Option.map_eq_some_iff.mp hstep
      funext k
      rw [get_of_apply happ k, ih]
      rfl

theorem getAll_answers (hget : s.get = latest log) (l : List V) :
    (∃ order t, methods.apply s .getAll order = some (l, t)) ↔ Answers log .getAll l := by
  have hvalues : Answers log .getAll l ↔ (l : Multiset V) = s.data.values := by
    rw [GoMap.coe_eq_values_iff]
    change (∃ keys : List K, _ ∧ (∀ k, k ∈ keys ↔ (latest log k).isSome = true) ∧
      keys.map (latest log) = _) ↔ _
    rw [← hget]
    rfl
  rw [hvalues]
  constructor
  · rintro ⟨order, t, h⟩
    obtain ⟨l', hl', heq⟩ := Option.map_eq_some_iff.mp h
    cases heq
    obtain ⟨horder, hl⟩ := Option.ite_none_right_eq_some.mp hl'
    cases hl
    exact horder
  · intro h
    have hall : s.getAll l = some l := if_pos h
    exact ⟨l, s, congrArg (Option.map fun l => (l, s)) hall⟩

/-- What a method can answer in a state that the calls of `log` have led to. -/
theorem answers_of_get (hget : s.get = latest log) (m : Method K V) (r : m.Res) :
    (∃ order t, methods.apply s m order = some (r, t)) ↔ Answers log m r := by
  cases m with
  | put k v => exact ⟨fun _ => trivial, fun _ => ⟨[], _, rfl⟩⟩
  | remove k => exact ⟨fun _ => trivial, fun _ => ⟨[], _, rfl⟩⟩
  | removeAll => exact ⟨fun _ => trivial, fun _ => ⟨[], _, rfl⟩⟩
  | getAll => exact getAll_answers hget r
  | get k =>
      change _ ↔ r = latest log k
      rw [← hget]
      constructor
      · rintro ⟨order, t, h⟩
        cases h
        rfl
      · rintro rfl
        exact ⟨[], s, rfl⟩

/-- Whoever calls the methods, and however the calls overlap, a method answers what the log of
    the calls before it allows, and nothing else. -/
theorem answers_iff {α : Type} {calls : ℕ → Prog (Method K V) Method.Res α}
    {h : List (Performed (Method K V) (List V))} {c : Config (InMemory K V) (Method K V) Method.Res α}
    (hhistory : methods.History calls h c) (m : Method K V) (r : m.Res) :
    (∃ order t, methods.apply c.shared m order = some (r, t)) ↔ Answers (operations h) m r :=
  answers_of_get (get_eq_latest hhistory.atomically) m r

/-- A call that stores and takes away what it stored, and others that store something. -/
def passing : ℕ → Prog (Method ℕ Bool) Method.Res Unit
  | 0 => .op (.put 1 true) fun _ => .op (.remove 1) fun _ => .ret ()
  | _ + 1 => .op (.put 2 false) fun _ => .ret ()

/-- What is left in the end is what the other call has stored. -/
theorem answers_iff_passing : ∃ h c, methods.History passing h c ∧
    ∃ order t, methods.apply c.shared .getAll order = some ([false], t) := by
  have hhistory : methods.History passing
      [⟨0, .remove 1, []⟩, ⟨1, .put 2 false, []⟩, ⟨0, .put 1 true, []⟩] _ :=
    .op (.op (.op .init rfl rfl) rfl rfl) rfl rfl
  have hleft (k : ℕ) : k ∈ [2] ↔ (latest (V := Bool)
      [(.remove 1, []), (.put 2 false, []), (.put 1 true, [])] k).isSome = true := by
    simp only [latest, List.foldr, Method.leaves]
    split_ifs <;> simp_all
  exact ⟨_, _, hhistory, (answers_iff hhistory .getAll [false]).mpr ⟨[2], by decide, hleft, rfl⟩⟩

end Storage
