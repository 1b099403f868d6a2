-- SUMMARY: The operations that an interleaving performs, in the order in which they take effect.
import TrueHack.Base.Interleave

/-!
# Histories

A run of `SharedObject.interleave` says which call moved. Its history says which
operations the calls performed, which is what statements about the shared object
are made of. An operation is atomic, so the object's state is a function of its
history: the programs around the operations drop out.
-/

/-- An operation of a call, with what the environment decided about it. -/
structure Performed (Op χ : Type) where
  call : ℕ
  op : Op
  choice : χ

/-- At some moment of the history `l`, the latest event first, one happened that satisfies
    `P` together with what came before it. -/
def Sometime {β : Type} (P : β → List β → Prop) : List β → Prop
  | [] => False
  | x :: l => P x l ∨ Sometime P l

theorem exists_of_sometime {β : Type} {P : β → List β → Prop} {l : List β} (h : Sometime P l) :
    ∃ x earlier, P x earlier ∧ earlier ⊆ l := by
  induction l with
  | nil => cases h
  | cons y l ih =>
      rcases h with h | h
      · exact ⟨y, l, h, List.subset_cons_self y l⟩
      · obtain ⟨x, earlier, hp, hsub⟩ := ih h
        exact ⟨x, earlier, hp, List.subset_cons_of_subset y hsub⟩

namespace SharedObject

variable {σ χ : Type} {Op : Type} {Res : Op → Type} {α : Type}

/-- `O.History calls h c`: a run that performs the operations `h`, latest first, leads
    to `c`. -/
inductive History (O : SharedObject σ χ Op Res) (calls : ℕ → Prog Op Res α) :
    List (Performed Op χ) → Config σ Op Res α → Prop where
  | init : History O calls [] (O.interleave calls).init
  | ret {h : List (Performed Op χ)} {c : Config σ Op Res α} {i : ℕ} {a : α} :
      History O calls h c → (c.thread i).program (calls i) = some (.ret a) →
      History O calls h (c.settle i (.ret a))
  | op {h : List (Performed Op χ)} {c : Config σ Op Res α} {i : ℕ} {o : Op}
      {k : Res o → Prog Op Res α} {x : χ} {r : Res o} {s : σ} :
      History O calls h c → (c.thread i).program (calls i) = some (.op o k) →
      O.apply c.shared o x = some (r, s) →
      History O calls (⟨i, o, x⟩ :: h) ({ c with shared := s }.settle i (k r))

variable {O : SharedObject σ χ Op Res} {calls : ℕ → Prog Op Res α} {c : Config σ Op Res α}
  {h : List (Performed Op χ)} {es : List (ℕ × χ)}

/-- Every run has a history. -/
theorem exists_history (hrun : (O.interleave calls).Run es c) : ∃ h, O.History calls h c := by
  induction hrun with
  | init => exact ⟨[], .init⟩
  | @step es c c' e hrun hstep ih =>
      obtain ⟨i, x⟩ := e
      obtain ⟨h, hhistory⟩ := ih
      obtain ⟨a, hp, rfl⟩ | ⟨o, k, r, s, hp, happ, rfl⟩ := step_cases hstep
      · exact ⟨h, hhistory.ret hp⟩
      · exact ⟨⟨i, o, x⟩ :: h, hhistory.op hp happ⟩

/-- A step of a call that performs an operation. -/
theorem step_of_op {i : ℕ} {o : Op} {k : Res o → Prog Op Res α} {x : χ} {r : Res o} {s : σ}
    (hp : (c.thread i).program (calls i) = some (.op o k))
    (happ : O.apply c.shared o x = some (r, s)) :
    (O.interleave calls).step c (i, x) = some ({ c with shared := s }.settle i (k r)) := by
  simp [interleave, advance, hp, happ]

/-- A step of a call that returns. -/
theorem step_of_ret {i : ℕ} {a : α} (x : χ)
    (hp : (c.thread i).program (calls i) = some (.ret a)) :
    (O.interleave calls).step c (i, x) = some (c.settle i (.ret a)) := by
  simp [interleave, advance, hp]

/-- Every history has a run. -/
theorem History.exists_run [Inhabited χ] (hhistory : O.History calls h c) :
    ∃ es, (O.interleave calls).Run es c := by
  induction hhistory with
  | init => exact ⟨[], .init⟩
  | ret _ hp ih =>
      obtain ⟨es, hrun⟩ := ih
      exact ⟨_, hrun.step (step_of_ret default hp)⟩
  | op _ hp happ ih =>
      obtain ⟨es, hrun⟩ := ih
      exact ⟨_, hrun.step (step_of_op hp happ)⟩

/-- What a call has left to do is what its program can come to, whatever its operations
    answer. -/
theorem History.program {P : ℕ → Prog Op Res α → Prop} (hcalls : ∀ i, P i (calls i))
    (hop : ∀ i o k r, P i (.op o k) → P i (k r)) (hhistory : O.History calls h c) {i : ℕ}
    {p : Prog Op Res α} (hp : (c.thread i).program (calls i) = some p) : P i p := by
  induction hhistory generalizing i p with
  | init =>
      obtain rfl := Option.some.inj hp
      exact hcalls i
  | @ret h c j a _ hprogram ih =>
      by_cases hij : i = j
      · subst hij
        simp [Thread.program] at hp
      · rw [Config.settle_thread_ne hij] at hp
        exact ih hp
  | @op h c j o k x r s _ hprogram happ ih =>
      by_cases hij : i = j
      · subst hij
        rw [← Config.eq_of_settle_program hp]
        exact hop i o k r (ih hprogram)
      · rw [Config.settle_thread_ne hij] at hp
        exact ih hp

/-- When no call begins by returning, none ever stands at its end. -/
theorem History.not_ret (hcalls : ∀ i a, calls i ≠ .ret a) (hhistory : O.History calls h c) (i : ℕ)
    (a : α) : (c.thread i).program (calls i) ≠ some (.ret a) := by
  induction hhistory with
  | init => exact fun hp => hcalls i a (Option.some.inj hp)
  | @ret _ _ j _ _ _ ih =>
      by_cases hij : i = j
      · subst hij
        simp [Thread.program]
      · rwa [Config.settle_thread_ne hij]
  | @op _ _ j _ k _ r _ _ _ _ ih =>
      by_cases hij : i = j
      · subst hij
        cases hr : k r <;> simp [Thread.program]
      · rwa [Config.settle_thread_ne hij]

/-- A call that has performed an operation has begun. -/
theorem History.begun (hhistory : O.History calls h c) {p : Performed Op χ} (hp : p ∈ h) :
    c.thread p.call ≠ .fresh := by
  have hsettle {c c' : Config σ Op Res α} {i : ℕ} {q : Prog Op Res α}
      (hthread : c'.thread = c.thread) (hbegun : c.thread p.call ≠ .fresh) :
      (c'.settle i q).thread p.call ≠ .fresh := by
    by_cases hi : p.call = i
    · rw [hi]
      exact Config.settle_begun
    · rwa [Config.settle_thread_ne hi, hthread]
  induction hhistory with
  | init => cases hp
  | ret _ _ ih => exact hsettle rfl (ih hp)
  | op _ _ _ ih =>
      rcases List.mem_cons.mp hp with rfl | hp
      · exact Config.settle_begun
      · exact hsettle rfl (ih hp)

/-! ## The object alone -/

/-- The operations of the object, one after the other. -/
def atomically (O : SharedObject σ χ Op Res) : Machine σ (Op × χ) where
  init := O.init
  step s e := (O.apply s e.1 e.2).map Prod.snd

/-- What the object went through, without the calls. -/
def operations (h : List (Performed Op χ)) : List (Op × χ) := h.map fun p => (p.op, p.choice)

/-- The state of the object is what its history makes of it. -/
theorem History.atomically (hhistory : O.History calls h c) :
    O.atomically.Run (operations h) c.shared := by
  induction hhistory with
  | init => exact .init
  | ret _ _ ih =>
      rw [Config.settle_shared]
      exact ih
  | op _ _ happ ih =>
      rw [Config.settle_shared]
      exact ih.step (by simp [SharedObject.atomically, happ])

end SharedObject
