-- SUMMARY: The in-memory storage of the contest service and its atomic operations.
import TrueHack.Base.GoMap
import TrueHack.Base.Interleave

/-!
# In-memory storage

`InMemory` guards one Go map with a read-write lock. Every method holds the lock
from its first line to its last, so each is one atomic operation.
-/

namespace Storage

variable {K V : Type}

/-- `InMemory[K, V]`; the lock is the atomicity of the operations below. -/
structure InMemory (K V : Type) where
  data : GoMap K V

namespace InMemory

/-- `NewInMemory` -/
def new : InMemory K V := ⟨∅⟩

variable [DecidableEq K]

def put (s : InMemory K V) (k : K) (v : V) : InMemory K V := ⟨s.data.insert k v⟩

def get (s : InMemory K V) (k : K) : Option V := s.data.lookup k

/-- `slices.Collect(maps.Values(s.data))`: the values in the order `order` in which
    the runtime happens to walk the map. -/
def getAll [DecidableEq V] (s : InMemory K V) (order : List V) : Option (List V) :=
  if (order : Multiset V) = s.data.values then some order else none

@[simp] theorem get_new (k : K) : (new : InMemory K V).get k = none := rfl

@[simp] theorem get_put_self (s : InMemory K V) (k : K) (v : V) : (s.put k v).get k = some v :=
  Finmap.lookup_insert s.data

theorem get_put_ne (s : InMemory K V) {k k' : K} (v : V) (h : k' ≠ k) :
    (s.put k v).get k' = s.get k' :=
  Finmap.lookup_insert_of_ne s.data h

theorem get_put (s : InMemory K V) (k k' : K) (v : V) :
    (s.put k v).get k' = if k' = k then some v else s.get k' := by
  split
  · rename_i h
    rw [h, get_put_self]
  · rename_i h
    exact get_put_ne s v h

end InMemory

/-- The methods of the storage that handlers call. -/
inductive Op (K V : Type) where
  | put (k : K) (v : V)
  | get (k : K)
  | getAll

/-- What a method returns. -/
def Op.Res : Op K V → Type
  | .put _ _ => Unit
  | .get _ => Option V
  | .getAll => List V

variable [DecidableEq K] [DecidableEq V]

/-- The storage as a shared object. The choice that goes with a call is the order in
    which `GetAll` walks the map. -/
def object : SharedObject (InMemory K V) (List V) (Op K V) Op.Res where
  init := .new
  apply s o order := match o with
    | .put k v => some ((), s.put k v)
    | .get k => some (s.get k, s)
    | .getAll => (s.getAll order).map fun l => (l, s)

@[simp] theorem object_init : (object : SharedObject (InMemory K V) _ _ _).init = .new := rfl

@[simp] theorem apply_put {s : InMemory K V} {k : K} {v : V} {order : List V} :
    object.apply s (.put k v) order = some ((), s.put k v) := rfl

@[simp] theorem apply_get {s : InMemory K V} {k : K} {order : List V} :
    object.apply s (.get k) order = some (s.get k, s) := rfl

theorem apply_getAll {s t : InMemory K V} {order l : List V}
    (h : object.apply s .getAll order = some (l, t)) :
    (l : Multiset V) = s.data.values ∧ t = s := by
  change (s.getAll order).map (fun l => (l, s)) = some (l, t) at h
  obtain ⟨l', hl', heq⟩ := Option.map_eq_some_iff.mp h
  obtain ⟨rfl, rfl⟩ := Prod.mk.inj heq
  obtain ⟨hvalues, horder⟩ := Option.ite_none_right_eq_some.mp hl'
  obtain rfl := Option.some.inj horder
  exact ⟨hvalues, rfl⟩

end Storage
