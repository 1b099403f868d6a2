-- SUMMARY: Maps whose entries expire: what a read finds, and implementations that may forget what has expired.
import Mathlib.Logic.Function.Basic
import Mathlib.Order.Lattice

/-!
# Expiring maps

The ideal map never removes anything: it keeps for every key the entry written
last, and a read simply does not see an entry that has expired. An
implementation may drop expired entries whenever it likes; `Agrees` relates the
two at a moment of time, and no read can tell them apart.
-/

namespace Expiry

variable {K E T : Type} [LinearOrder T] (expiry : E → T)

/-- What a read at `now` finds of a stored entry. -/
def live (now : T) (e : Option E) : Option E := e.filter fun e => now ≤ expiry e

/-- At `now` and after, `c` has lost nothing of `m` but expired entries. -/
def Agrees (now : T) (c m : K → Option E) : Prop :=
  ∀ k, c k = m k ∨ c k = none ∧ ∀ e, m k = some e → expiry e < now

variable {expiry} {now later : T} {c c' m : K → Option E}

@[simp] theorem live_none : live expiry now none = none := rfl

theorem live_some {e : E} : live expiry now (some e) = if now ≤ expiry e then some e else none := by
  by_cases h : now ≤ expiry e <;> simp [live, Option.filter, h]

theorem live_eq_some {o : Option E} {e : E} :
    live expiry now o = some e ↔ o = some e ∧ now ≤ expiry e := by
  simp [live, Option.filter_eq_some_iff]

theorem Agrees.refl : Agrees expiry now m m := fun _ => .inl rfl

/-- Reads cannot tell related maps apart. -/
theorem Agrees.live_eq (h : Agrees expiry now c m) (k : K) :
    live expiry now (c k) = live expiry now (m k) := by
  rcases h k with heq | ⟨hnone, hexpired⟩
  · rw [heq]
  · rw [hnone, live_none]
    cases hm : m k with
    | none => rfl
    | some e => rw [live_some, if_neg (not_le.mpr (hexpired e hm))]

/-- What has expired stays expired. -/
theorem Agrees.mono (h : Agrees expiry now c m) (hle : now ≤ later) : Agrees expiry later c m := by
  intro k
  rcases h k with heq | ⟨hnone, hexpired⟩
  · exact .inl heq
  · exact .inr ⟨hnone, fun e he => lt_of_lt_of_le (hexpired e he) hle⟩

/-- Losing expired entries twice is losing expired entries. -/
theorem Agrees.trans (h' : Agrees expiry now c' c) (h : Agrees expiry now c m) :
    Agrees expiry now c' m := by
  intro k
  rcases h' k with heq' | ⟨hnone', hexpired'⟩
  · rw [heq']
    exact h k
  · rcases h k with heq | ⟨_, hexpired⟩
    · exact .inr ⟨hnone', heq ▸ hexpired'⟩
    · exact .inr ⟨hnone', hexpired⟩

/-- Writing both maps keeps them related. -/
theorem Agrees.update [DecidableEq K] (h : Agrees expiry now c m) (k : K) (e : Option E) :
    Agrees expiry now (Function.update c k e) (Function.update m k e) := by
  intro k'
  by_cases hk : k' = k
  · subst hk
    simp
  · simpa [Function.update_of_ne hk] using h k'

end Expiry
