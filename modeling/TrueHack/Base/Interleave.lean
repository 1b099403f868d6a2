-- SUMMARY: Programs over the atomic operations of a shared object, their interleavings, and linearization in completion order.
import Mathlib.Logic.Function.Basic
import TrueHack.Base.Runs

/-!
# Interleaved programs over a shared object

A program touches the shared object only through atomic operations; between two
of them it computes on its own. Running one program alone is `Prog.Exec`. Running
any number of them together is the machine `SharedObject.interleave`, whose
events pick the call that moves: a call's next operation and the local code up to
the one after it are one step. Calls are numbered, so "any number of handlers" is
a function from numbers to programs.
-/

/-- A program over operations `Op`, where `o` answers in `Res o`. -/
inductive Prog (Op : Type) (Res : Op → Type) (α : Type) where
  | ret (a : α)
  | op (o : Op) (k : Res o → Prog Op Res α)

/-- A shared object. What the environment decides about one operation (a clock
    reading, an iteration order) is its `χ`; a choice that cannot happen has no
    outcome. -/
structure SharedObject (σ χ : Type) (Op : Type) (Res : Op → Type) where
  init : σ
  apply : σ → (o : Op) → χ → Option (Res o × σ)

variable {σ χ : Type} {Op : Type} {Res : Op → Type} {α : Type}

/-- `p.Exec O s a t`: run alone from `s`, the program `p` returns `a` and leaves `t`. -/
inductive Prog.Exec (O : SharedObject σ χ Op Res) : σ → Prog Op Res α → α → σ → Prop where
  | ret {s : σ} {a : α} : Exec O s (.ret a) a s
  | op {s t u : σ} {o : Op} {k : Res o → Prog Op Res α} {x : χ} {r : Res o} {a : α} :
      O.apply s o x = some (r, t) → Exec O t (k r) a u → Exec O s (.op o k) a u

/-- Where a call stands: not begun, between two of its operations, or answered. -/
inductive Thread (Op : Type) (Res : Op → Type) (α : Type) where
  | fresh
  | running (p : Prog Op Res α)
  | returned

/-- What a thread has left to do. -/
def Thread.program (call : Prog Op Res α) : Thread Op Res α → Option (Prog Op Res α)
  | .fresh => some call
  | .running p => some p
  | .returned => none

/-- The shared object, every call's thread, and the replies given so far in the
    order in which they were given. -/
structure Config (σ : Type) (Op : Type) (Res : Op → Type) (α : Type) where
  shared : σ
  thread : ℕ → Thread Op Res α
  replies : List (ℕ × α)

namespace Config

/-- Call `i` has reached `p`: it replies if `p` returns, and otherwise waits to be
    scheduled again. -/
def settle (c : Config σ Op Res α) (i : ℕ) : Prog Op Res α → Config σ Op Res α
  | .ret a =>
      { c with thread := Function.update c.thread i .returned, replies := c.replies ++ [(i, a)] }
  | .op o k => { c with thread := Function.update c.thread i (.running (.op o k)) }

variable {c : Config σ Op Res α} {i j : ℕ} {p : Prog Op Res α}

@[simp] theorem settle_shared : (c.settle i p).shared = c.shared := by
  cases p <;> rfl

@[simp] theorem settle_ret_replies {a : α} :
    (c.settle i (.ret a)).replies = c.replies ++ [(i, a)] := rfl

@[simp] theorem settle_op_replies {o : Op} {k : Res o → Prog Op Res α} :
    (c.settle i (.op o k)).replies = c.replies := rfl

@[simp] theorem settle_ret_thread_self {a : α} :
    (c.settle i (.ret a)).thread i = .returned := by
  simp [settle]

@[simp] theorem settle_op_thread_self {o : Op} {k : Res o → Prog Op Res α} :
    (c.settle i (.op o k)).thread i = .running (.op o k) := by
  simp [settle]

/-- Settling adds a reply where the program returns. -/
theorem mem_settle_replies {a : α} :
    (j, a) ∈ (c.settle i p).replies ↔ (j, a) ∈ c.replies ∨ j = i ∧ p = .ret a := by
  cases p with
  | ret b => simp [eq_comm]
  | op o k => simp

/-- What a call that has settled has left to do. -/
theorem eq_of_settle_program {call q : Prog Op Res α}
    (h : ((c.settle i p).thread i).program call = some q) : p = q := by
  cases p with
  | ret a => simp [Thread.program] at h
  | op o k => simpa [Thread.program] using h

theorem settle_thread_ne (h : j ≠ i) : (c.settle i p).thread j = c.thread j := by
  cases p <;> simp [settle, Function.update_of_ne h]

theorem settle_begun : (c.settle i p).thread i ≠ .fresh := by
  cases p <;> simp

end Config

namespace SharedObject

variable (O : SharedObject σ χ Op Res) (calls : ℕ → Prog Op Res α)

/-- One step of call `i`. -/
def advance (c : Config σ Op Res α) (i : ℕ) (x : χ) : Option (Config σ Op Res α) :=
  match (c.thread i).program (calls i) with
  | none => none
  | some (.ret a) => some (c.settle i (.ret a))
  | some (.op o k) =>
      (O.apply c.shared o x).map fun (r, s) => { c with shared := s }.settle i (k r)

/-- Every interleaving of the calls. -/
def interleave : Machine (Config σ Op Res α) (ℕ × χ) where
  init := ⟨O.init, fun _ => .fresh, []⟩
  step c e := O.advance calls c e.1 e.2

variable {O calls} {c c' : Config σ Op Res α} {i j : ℕ} {x : χ}

@[simp] theorem interleave_init : (O.interleave calls).init = ⟨O.init, fun _ => .fresh, []⟩ := rfl

/-- What one step can be: a call that returns without an operation, or one
    operation followed by the code up to the next. -/
theorem step_cases (h : (O.interleave calls).step c (i, x) = some c') :
    (∃ a, (c.thread i).program (calls i) = some (.ret a) ∧ c' = c.settle i (.ret a)) ∨
    ∃ o k r s, (c.thread i).program (calls i) = some (.op o k) ∧
      O.apply c.shared o x = some (r, s) ∧ c' = { c with shared := s }.settle i (k r) := by
  simp only [interleave, advance] at h
  split at h
  · cases h
  · rename_i a hp
    exact .inl ⟨a, hp, (Option.some.inj h).symm⟩
  · rename_i o k hp
    obtain ⟨⟨r, s⟩, happ, rfl⟩ := Option.map_eq_some_iff.mp h
    exact .inr ⟨o, k, r, s, hp, happ, rfl⟩

/-- A step of one call leaves every other call where it was. -/
theorem step_thread_ne (h : (O.interleave calls).step c (i, x) = some c') (hj : j ≠ i) :
    c'.thread j = c.thread j := by
  obtain ⟨a, _, rfl⟩ | ⟨o, k, r, s, _, _, rfl⟩ := step_cases h
  · exact Config.settle_thread_ne hj
  · exact Config.settle_thread_ne hj

/-- A step answers at most the call that moves. -/
theorem step_replies (h : (O.interleave calls).step c (i, x) = some c') :
    (c'.replies = c.replies ∧ ∃ p, c'.thread i = .running p) ∨
    ∃ a, c'.replies = c.replies ++ [(i, a)] ∧ c'.thread i = .returned := by
  obtain ⟨a, _, rfl⟩ | ⟨o, k, r, s, _, _, rfl⟩ := step_cases h
  · exact .inr ⟨a, by simp⟩
  · cases hk : k r with
    | ret a => exact .inr ⟨a, by simp⟩
    | op o' k' => exact .inl ⟨by simp, .op o' k', by simp⟩

theorem step_thread_ne_returned (h : (O.interleave calls).step c (i, x) = some c') :
    c.thread i ≠ .returned := by
  intro hret
  obtain ⟨a, hp, _⟩ | ⟨o, k, r, s, hp, _⟩ := step_cases h <;>
    simp [hret, Thread.program] at hp

/-! ## Replies along a run -/

/-- The calls that have answered are the ones whose thread has returned. -/
theorem mem_replies_iff {es : List (ℕ × χ)} (h : (O.interleave calls).Run es c) (i : ℕ) :
    (∃ a, (i, a) ∈ c.replies) ↔ c.thread i = .returned := by
  refine h.invariant (I := fun _ c => (∃ a, (i, a) ∈ c.replies) ↔ c.thread i = .returned)
    (by simp) ?_
  rintro es c ⟨j, x⟩ c' _ ih hstep
  by_cases hij : i = j
  · subst hij
    obtain ⟨hrep, p, hthread⟩ | ⟨a, hrep, hthread⟩ := step_replies hstep
    · have hne := step_thread_ne_returned hstep
      simp only [hrep, hthread, reduceCtorEq, iff_false]
      exact fun hmem => hne (ih.mp hmem)
    · simp only [hrep, hthread, iff_true]
      exact ⟨a, by simp⟩
  · rw [step_thread_ne hstep hij, ← ih]
    obtain ⟨hrep, _⟩ | ⟨a, hrep, _⟩ := step_replies hstep
    · rw [hrep]
    · simp [hrep, hij]

/-- No call answers twice. -/
theorem replies_nodup {es : List (ℕ × χ)} (h : (O.interleave calls).Run es c) :
    (c.replies.map Prod.fst).Nodup := by
  refine h.invariant (I := fun _ c => (c.replies.map Prod.fst).Nodup) (by simp) ?_
  rintro es c ⟨i, x⟩ c' hrun ih hstep
  obtain ⟨hrep, _⟩ | ⟨a, hrep, _⟩ := step_replies hstep
  · rwa [hrep]
  · have hnew : i ∉ c.replies.map Prod.fst := by
      intro hmem
      obtain ⟨⟨_, b⟩, hb, rfl⟩ := List.mem_map.mp hmem
      exact step_thread_ne_returned hstep ((mem_replies_iff hrun _).mp ⟨b, hb⟩)
    simp only [hrep, List.map_append, List.map_cons, List.map_nil]
    exact List.nodup_append.mpr ⟨ih, by simp, fun a ha b hb hab => hnew (by
      obtain rfl := List.mem_singleton.mp hb
      exact hab ▸ ha)⟩

/-- The replies a call gets are never taken back. -/
theorem replies_prefix {later earlier : List (ℕ × χ)} {c₁ : Config σ Op Res α}
    (h : (O.interleave calls).Run (later ++ earlier) c)
    (h₁ : (O.interleave calls).Run earlier c₁) : c₁.replies <+: c.replies := by
  induction later generalizing c with
  | nil =>
      obtain rfl := h₁.deterministic h
      exact List.prefix_rfl
  | cons e later ih =>
      cases h with
      | step hrun hstep =>
          obtain ⟨hrep, _⟩ | ⟨a, hrep, _⟩ := step_replies hstep
          · rw [hrep]
            exact ih hrun
          · rw [hrep]
            exact (ih hrun).trans (List.prefix_append _ _)

/-! ## Linearization

When every call takes effect in its last step, the order in which the calls
answer is a sequential order that explains the run. -/

/-- `O.Serial calls l s`: the calls of `l`, each run alone and in this order from
    the initial object, give the replies of `l` and leave `s`. -/
inductive Serial (O : SharedObject σ χ Op Res) (calls : ℕ → Prog Op Res α) :
    List (ℕ × α) → σ → Prop where
  | nil : Serial O calls [] O.init
  | snoc {l : List (ℕ × α)} {s t : σ} {i : ℕ} {a : α} :
      Serial O calls l s → (calls i).Exec O s a t → Serial O calls (l ++ [(i, a)]) t

/-- The step either answers nothing and changes nothing, or has the whole effect
    of the call it answers. -/
def Commits (O : SharedObject σ χ Op Res) (calls : ℕ → Prog Op Res α)
    (_ : List (ℕ × χ)) (c : Config σ Op Res α) (e : ℕ × χ) (c' : Config σ Op Res α) : Prop :=
  (c'.replies = c.replies → c'.shared = c.shared) ∧
  ∀ a, c'.replies = c.replies ++ [(e.1, a)] → (calls e.1).Exec O c.shared a c'.shared

theorem serial_of_commits {es : List (ℕ × χ)} (h : (O.interleave calls).Run es c)
    (hc : (O.interleave calls).Every (O.Commits calls) es) :
    O.Serial calls c.replies c.shared := by
  refine h.invariant_of_every (I := fun _ c => O.Serial calls c.replies c.shared) .nil ?_ hc
  rintro es c ⟨i, x⟩ c' _ _ ih hstep ⟨hsilent, hcommit⟩
  obtain ⟨hrep, _⟩ | ⟨a, hrep, _⟩ := step_replies hstep
  · rw [hrep, hsilent hrep]
    exact ih
  · rw [hrep]
    exact ih.snoc (hcommit a hrep)

/-- A call that answered before another one began comes first in the order of
    replies. -/
theorem replies_realTime {later earlier : List (ℕ × χ)} {c₁ : Config σ Op Res α}
    (h : (O.interleave calls).Run (later ++ earlier) c)
    (h₁ : (O.interleave calls).Run earlier c₁)
    (hi : c₁.thread i = .returned) (hj : c₁.thread j = .fresh) (hj' : c.thread j = .returned) :
    [i, j].Sublist (c.replies.map Prod.fst) := by
  obtain ⟨new, hnew⟩ := replies_prefix h h₁
  obtain ⟨a, ha⟩ := (mem_replies_iff h₁ i).mpr hi
  obtain ⟨b, hb⟩ := (mem_replies_iff h j).mpr hj'
  have hb' : (j, b) ∈ new := by
    rcases List.mem_append.mp (hnew ▸ hb) with hold | hnew'
    · have hret := (mem_replies_iff h₁ j).mp ⟨b, hold⟩
      rw [hj] at hret
      cases hret
    · exact hnew'
  have hi₁ : [i].Sublist (c₁.replies.map Prod.fst) :=
    List.singleton_sublist.mpr (List.mem_map.mpr ⟨_, ha, rfl⟩)
  have hj₁ : [j].Sublist (new.map Prod.fst) :=
    List.singleton_sublist.mpr (List.mem_map.mpr ⟨_, hb', rfl⟩)
  rw [← hnew, List.map_append]
  exact hi₁.append hj₁

end SharedObject
