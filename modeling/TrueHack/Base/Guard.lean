-- SUMMARY: Programs behind a guard that may refuse to run them: the guard is invisible to the object they work on.
import TrueHack.Base.Interleave

/-!
# Guarded programs

A guard decides, by looking at an object of its own, whether a program runs at all.
Once it lets the program pass it is done. A refused call has done nothing, so what
the guarded calls make of their object is what the calls that passed make of it
without a guard.
-/

variable {σ τ χ : Type} {Op Op' : Type} {Res : Op → Type} {Res' : Op' → Type} {α β : Type}

/-- An operation of one of two objects answers as it does there. -/
abbrev EitherRes (Res : Op → Type) (Res' : Op' → Type) : Op ⊕ Op' → Type
  | .inl o => Res o
  | .inr o => Res' o

/-- An object and the object of its guard. When the latter is not `up`, nothing happens to
    either. -/
def SharedObject.guarded (O : SharedObject σ χ Op Res) (G : SharedObject τ χ Op' Res')
    (up : τ → Bool) : SharedObject (σ × τ) χ (Op ⊕ Op') (EitherRes Res Res') where
  init := (O.init, G.init)
  apply s o x :=
    if up s.2 then
      match o with
      | .inl o => (O.apply s.1 o x).map fun (r, t) => (r, (t, s.2))
      | .inr o => (G.apply s.2 o x).map fun (r, t) => (r, (s.1, t))
    else none

/-- The program `p` past its guard. What it returns is told from a refusal. -/
def Prog.passed : Prog Op Res α → Prog (Op ⊕ Op') (EitherRes Res Res') (α ⊕ β)
  | .ret a => .ret (.inl a)
  | .op o k => .op (.inl o) fun r => (k r).passed

/-- `Prog.Guards p g`: the program `g` asks its guard some questions, and then it refuses or
    runs `p`. -/
inductive Prog.Guards (p : Prog Op Res α) : Prog (Op ⊕ Op') (EitherRes Res Res') (α ⊕ β) → Prop where
  | pass : Guards p p.passed
  | refuse (b : β) : Guards p (.ret (.inr b))
  | ask (o : Op') (k : Res' o → Prog (Op ⊕ Op') (EitherRes Res Res') (α ⊕ β))
      (hk : ∀ r, Guards p (k r)) : Guards p (.op (.inr o) k)

namespace SharedObject

/-- The replies of the programs that passed. -/
def passedReplies (replies : List (ℕ × (α ⊕ β))) : List (ℕ × α) :=
  replies.filterMap fun r => match r.2 with
    | .inl a => some (r.1, a)
    | .inr _ => none

variable {O : SharedObject σ χ Op Res} {G : SharedObject τ χ Op' Res'} {up : τ → Bool}
  {calls : ℕ → Prog Op Res α} {guards : ℕ → Prog (Op ⊕ Op') (EitherRes Res Res') (α ⊕ β)}

/-- Where a guarded call stands, and the same call without its guard. -/
inductive ThreadPasses (p : Prog Op Res α) (g : Prog (Op ⊕ Op') (EitherRes Res Res') (α ⊕ β)) :
    Thread (Op ⊕ Op') (EitherRes Res Res') (α ⊕ β) → Thread Op Res α → Prop where
  | waiting {t : Thread (Op ⊕ Op') (EitherRes Res Res') (α ⊕ β)}
      {g' : Prog (Op ⊕ Op') (EitherRes Res Res') (α ⊕ β)}
      (hprogram : t.program g = some g') (hguards : p.Guards g') : ThreadPasses p g t .fresh
  | running (q : Prog Op Res α) : ThreadPasses p g (.running q.passed) (.running q)
  | refused : ThreadPasses p g .returned .fresh
  | returned : ThreadPasses p g .returned .returned

/-- The state of the guarded calls, and a state of the calls without their guards. -/
structure Passes (calls : ℕ → Prog Op Res α)
    (guards : ℕ → Prog (Op ⊕ Op') (EitherRes Res Res') (α ⊕ β))
    (c : Config (σ × τ) (Op ⊕ Op') (EitherRes Res Res') (α ⊕ β)) (d : Config σ Op Res α) : Prop where
  shared : d.shared = c.shared.1
  replies : d.replies = passedReplies c.replies
  threads : ∀ i, ThreadPasses (calls i) (guards i) (c.thread i) (d.thread i)

variable {c c' : Config (σ × τ) (Op ⊕ Op') (EitherRes Res Res') (α ⊕ β)} {d : Config σ Op Res α}
  {i : ℕ} {x : χ}

/-- A call that has passed, in step with the call without its guard. -/
theorem Passes.settle (hpasses : Passes calls guards c d) (p : Prog Op Res α) :
    Passes calls guards (c.settle i p.passed) (d.settle i p) := by
  cases p with
  | ret a =>
      refine ⟨by simpa using hpasses.shared, ?_, fun j => ?_⟩
      · simp [Prog.passed, Config.settle, hpasses.replies, passedReplies]
      · by_cases hij : j = i
        · subst hij
          rw [Prog.passed, Config.settle_ret_thread_self, Config.settle_ret_thread_self]
          exact .returned
        · rw [Config.settle_thread_ne hij, Config.settle_thread_ne hij]
          exact hpasses.threads j
  | op o k =>
      refine ⟨by simpa using hpasses.shared, by simpa [Prog.passed] using hpasses.replies, fun j => ?_⟩
      by_cases hij : j = i
      · subst hij
        rw [Prog.passed, Config.settle_op_thread_self, Config.settle_op_thread_self]
        exact .running (.op o k)
      · rw [Config.settle_thread_ne hij, Config.settle_thread_ne hij]
        exact hpasses.threads j

/-- A call that is refused, or still at its guard, stands still behind it. -/
theorem Passes.settle_waiting {g : Prog (Op ⊕ Op') (EitherRes Res Res') (α ⊕ β)}
    (hpasses : Passes calls guards c d) (hfresh : d.thread i = .fresh)
    (hreplies : passedReplies (c.settle i g).replies = passedReplies c.replies)
    (hthread : ThreadPasses (calls i) (guards i) ((c.settle i g).thread i) .fresh) :
    Passes calls guards (c.settle i g) d := by
  refine ⟨by simpa using hpasses.shared, hpasses.replies.trans hreplies.symm, fun j => ?_⟩
  by_cases hij : j = i
  · subst hij
    rwa [hfresh]
  · rw [Config.settle_thread_ne hij]
    exact hpasses.threads j

/-- A call at its guard comes to `g`: it asks, it is refused, or it passes, and then a
    program that is over already has answered. -/
theorem Passes.settle_guard {g : Prog (Op ⊕ Op') (EitherRes Res Res') (α ⊕ β)}
    (hpasses : Passes calls guards c d) (hfresh : d.thread i = .fresh)
    (hguards : (calls i).Guards g) (x : χ) :
    Passes calls guards (c.settle i g) d ∨
      ∃ d', (O.interleave calls).step d (i, x) = some d' ∧ Passes calls guards (c.settle i g) d' := by
  cases hguards with
  | pass =>
      cases hcall : calls i with
      | ret a =>
          have hprogram : (d.thread i).program (calls i) = some (.ret a) := by
            rw [hfresh, hcall]
            rfl
          exact .inr ⟨_, by simp [interleave, advance, hprogram], hpasses.settle (.ret a)⟩
      | op o k =>
          left
          refine hpasses.settle_waiting hfresh (by simp [Prog.passed]) ?_
          rw [Prog.passed, Config.settle_op_thread_self, hcall]
          exact .waiting rfl .pass
  | refuse b =>
      left
      refine hpasses.settle_waiting hfresh (by simp [passedReplies]) ?_
      rw [Config.settle_ret_thread_self]
      exact .refused
  | ask o k hk =>
      left
      refine hpasses.settle_waiting hfresh (by simp) ?_
      rw [Config.settle_op_thread_self]
      exact .waiting rfl (.ask o k hk)

/-- An operation on the object behind the guard. -/
theorem apply_inl {s : σ × τ} {o : Op} {r : Res o} {t : σ × τ}
    (happ : (O.guarded G up).apply s (.inl o) x = some (r, t)) :
    up s.2 = true ∧ O.apply s.1 o x = some (r, t.1) ∧ t.2 = s.2 := by
  obtain ⟨hup, happ⟩ := Option.ite_none_right_eq_some.mp happ
  obtain ⟨⟨r', s'⟩, happ', heq⟩ := Option.map_eq_some_iff.mp happ
  obtain ⟨rfl, rfl⟩ := Prod.mk.inj heq
  exact ⟨hup, happ', rfl⟩

/-- A question to the guard. -/
theorem apply_inr {s : σ × τ} {o : Op'} {r : Res' o} {t : σ × τ}
    (happ : (O.guarded G up).apply s (.inr o) x = some (r, t)) :
    up s.2 = true ∧ G.apply s.2 o x = some (r, t.2) ∧ t.1 = s.1 := by
  obtain ⟨hup, happ⟩ := Option.ite_none_right_eq_some.mp happ
  obtain ⟨⟨r', s'⟩, happ', heq⟩ := Option.map_eq_some_iff.mp happ
  obtain ⟨rfl, rfl⟩ := Prod.mk.inj heq
  exact ⟨hup, happ', rfl⟩

/-- A program alone behind an open guard. -/
theorem exec_passed {p : Prog Op Res α} {s t : σ} {g : τ} {a : α} (hup : up g = true)
    (hexec : p.Exec O s a t) :
    (p.passed (β := β)).Exec (O.guarded G up) (s, g) (.inl a) (t, g) := by
  induction hexec with
  | ret => exact .ret
  | @op s t u o k x r a happ _ ih =>
      refine .op (x := x) (t := (t, g)) ?_ ih
      simp [guarded, hup, happ]

/-! ## Simulation -/

/-- A call that has passed performs the operation of the call without its guard. -/
theorem Passes.op {p : Prog Op Res α} {o : Op ⊕ Op'}
    {k : EitherRes Res Res' o → Prog (Op ⊕ Op') (EitherRes Res Res') (α ⊕ β)}
    {r : EitherRes Res Res' o} {s : σ × τ} (hpasses : Passes calls guards c d)
    (hprogram : (d.thread i).program (calls i) = some p)
    (hp : p.passed = .op o k) (happ : (O.guarded G up).apply c.shared o x = some (r, s)) :
    ∃ d', (O.interleave calls).step d (i, x) = some d' ∧
      Passes calls guards ({ c with shared := s }.settle i (k r)) d' := by
  cases p with
  | ret a => cases hp
  | op o' k' =>
      cases hp
      obtain ⟨_, happ', hguard⟩ := apply_inl happ
      have hpasses' : Passes calls guards { c with shared := s } { d with shared := s.1 } :=
        ⟨rfl, hpasses.replies, hpasses.threads⟩
      rw [← hpasses.shared] at happ'
      exact ⟨_, by simp [interleave, advance, hprogram, happ'], hpasses'.settle (k' r)⟩

/-- A step of the guarded calls is one without the guards, or invisible behind them. -/
theorem Passes.step (hpasses : Passes calls guards c d)
    (hstep : ((O.guarded G up).interleave guards).step c (i, x) = some c') :
    Passes calls guards c' d ∨
      ∃ d', (O.interleave calls).step d (i, x) = some d' ∧ Passes calls guards c' d' := by
  have hthread := hpasses.threads i
  obtain ⟨a, hprogram, rfl⟩ | ⟨o, k, r, s, hprogram, happ, rfl⟩ := step_cases hstep
  · generalize c.thread i = t at hthread hprogram
    generalize hd : d.thread i = u at hthread
    cases hthread with
    | waiting hwaiting hguard =>
        obtain rfl := Option.some.inj (hprogram.symm.trans hwaiting)
        exact hpasses.settle_guard hd hguard x
    | running q =>
        cases q with
        | ret b =>
            cases hprogram
            exact .inr ⟨_, by simp [interleave, advance, hd, Thread.program],
              hpasses.settle (.ret b)⟩
        | op o k => cases hprogram
    | refused => cases hprogram
    | returned => cases hprogram
  · generalize c.thread i = t at hthread hprogram
    generalize hd : d.thread i = u at hthread
    cases hthread with
    | waiting hwaiting hguard =>
        obtain rfl := Option.some.inj (hprogram.symm.trans hwaiting)
        generalize hg : Prog.op o k = g at hguard
        cases hguard with
        | pass => exact .inr (hpasses.op (by rw [hd]; rfl) hg.symm happ)
        | refuse b => cases hg
        | ask o' k' hk =>
            cases hg
            obtain ⟨_, _, hobject⟩ := apply_inr happ
            have hpasses' : Passes calls guards { c with shared := s } d :=
              ⟨hpasses.shared.trans hobject.symm, hpasses.replies, hpasses.threads⟩
            exact hpasses'.settle_guard hd (hk r) x
    | running q => exact .inr (hpasses.op (by rw [hd]; rfl) (Option.some.inj hprogram) happ)
    | refused => cases hprogram
    | returned => cases hprogram

/-- What the guarded calls make of their object, and the replies of those that passed, is
    what calls without a guard make of it and reply. -/
theorem exists_passes (hguards : ∀ i, (calls i).Guards (guards i)) {es : List (ℕ × χ)}
    (hrun : ((O.guarded G up).interleave guards).Run es c) :
    ∃ es' d, es'.Sublist es ∧ (O.interleave calls).Run es' d ∧ Passes calls guards c d := by
  induction hrun with
  | init => exact ⟨[], _, .slnil, .init, rfl, rfl, fun i => .waiting rfl (hguards i)⟩
  | @step es c c' e _ hstep ih =>
      obtain ⟨es', d, hsub, hrun', hpasses⟩ := ih
      obtain ⟨i, x⟩ := e
      rcases hpasses.step hstep with hsame | ⟨d', hstep', hpasses'⟩
      · exact ⟨es', d, hsub.cons _, hrun', hsame⟩
      · exact ⟨(i, x) :: es', d', hsub.cons_cons _, hrun'.step hstep', hpasses'⟩

end SharedObject
