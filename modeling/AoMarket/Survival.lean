import AoMarket.Interleaving

/-!
Coroutines that no exception can end. `Survives I Q` asks that no branch taken from
states in `I` raises and that what is returned satisfies `Q`; nothing is asked of what
the calls do to the state. So a coroutine that survives does so in any company, as
long as the company keeps `I`.
-/

namespace AoMarket.Survival

open Coroutine Interleaving

variable {κ σ ε α β : Type}

def Survives (I : σ → Prop) (Q : α → Prop) : Coro κ σ ε α → Prop
  | .ret a => Q a
  | .raise _ => False
  | .step _ _ next => ∀ s, I s → Survives I Q (next s)

section Rules
variable {I : σ → Prop} {Q : α → Prop} {Q' : β → Prop}

/-- What a coroutine returns where nothing is known of its calls. -/
abbrev Gives (I : σ → Prop) (Q : α → Prop) (p : Coro κ σ ε α) : Prop :=
  p.Always I (fun _ _ _ => True) Q

theorem gives_anything (p : Coro κ σ ε α) : Gives I (fun _ => True) p := by
  induction p with
  | ret a => exact Coro.Always.pure trivial
  | raise e => exact Coro.Always.throw e
  | step call u k ih => exact Coro.always_step.mpr fun s _ => ⟨trivial, ih s⟩

theorem Survives.pure {a : α} (h : Q a) : Survives I Q (pure a : Coro κ σ ε α) := h

theorem Survives.bind {p : Coro κ σ ε α} {f : α → Coro κ σ ε β} (hp : Survives I Q p)
    (hf : ∀ a, Q a → Survives I Q' (f a)) : Survives I Q' (p >>= f) := by
  induction p with
  | ret a => exact hf a hp
  | raise e => exact hp.elim
  | step call u k ih => exact fun s hs => ih s (hp s hs)

/-- `try: p except e: h e`: what `p` raises does not matter. -/
theorem Survives.handle {p : Coro κ σ ε α} {h : ε → Coro κ σ ε α} (hp : Gives I Q p)
    (hh : ∀ e, Survives I Q (h e)) : Survives I Q (tryCatch p h) := by
  induction p with
  | ret a =>
    have hQ : Q a := Coro.always_ret.mp hp
    exact hQ
  | raise e => exact hh e
  | step call u k ih => exact fun s hs => ih s (Coro.always_step.mp hp s hs).2

theorem Survives.act {call : κ} {f : σ → Except ε α × σ}
    (h : ∀ s, I s → ∃ a, (f s).1 = .ok a ∧ Q a) : Survives I Q (Coro.act call f) := by
  intro s hs
  obtain ⟨a, ha, hQ⟩ := h s hs
  show Survives I Q (Coro.ofExcept (f s).1)
  rw [ha]
  exact hQ

theorem Survives.relabel {κ' : Type} {f : κ → κ'} {p : Coro κ σ ε α} (hp : Survives I Q p) :
    Survives I Q (p.relabel f) := by
  induction p with
  | ret a => exact hp
  | raise e => exact hp
  | step call u k ih => exact fun s hs => ih s (hp s hs)

theorem Survives.not_raised {p : Coro κ σ ε α} (hp : Survives I Q p) : p.raised = false := by
  cases p with
  | ret a => rfl
  | raise e => exact hp.elim
  | step call u k => rfl

end Rules

section Pools
variable {ι : Type} [DecidableEq ι] {I : σ → Prop} {Q : α → Prop}

/-- A turn of any coroutine of the pool leaves a surviving one surviving. -/
theorem survives_turn {P : Pool ι κ σ ε α} {i j : ι} (hI : I P.shared)
    (h : Survives I Q (P.thread i)) : Survives I Q ((P.turn j).thread i) := by
  cases hj : P.thread j with
  | ret a | raise e =>
    rw [Pool.turn_of_finished (by rw [hj]; rfl)]
    exact h
  | step call u k =>
    rw [Pool.turn_of_step hj]
    by_cases hij : i = j
    · subst hij
      rw [hj] at h
      simpa using h P.shared hI
    · simpa [Function.update_of_ne hij] using h

/-- In a schedule all of whose states are in `I`, no exception ends it. -/
theorem survives_exec {P : Pool ι κ σ ε α} {i : ι} (h : Survives I Q (P.thread i))
    {schedule : List ι} (hI : P.Respects (fun P _ => I P.shared) schedule) :
    Survives I Q ((P.exec schedule).thread i) := by
  induction schedule generalizing P with
  | nil => exact h
  | cons j rest ih => exact ih (survives_turn hI.1 h) hI.2

/-- What the calls of a coroutine do, they do in any company that keeps `I`. -/
theorem always_turn {G : κ → σ → σ → Prop} {P : Pool ι κ σ ε α} {i j : ι} (hI : I P.shared)
    (h : (P.thread i).Always I G Q) : ((P.turn j).thread i).Always I G Q := by
  cases hj : P.thread j with
  | ret a | raise e =>
    rw [Pool.turn_of_finished (by rw [hj]; rfl)]
    exact h
  | step call u k =>
    rw [Pool.turn_of_step hj]
    by_cases hij : i = j
    · subst hij
      rw [hj] at h
      simpa using (Coro.always_step.mp h P.shared hI).2
    · simpa [Function.update_of_ne hij] using h

/-- A coroutine's promise about each of its calls outlives any schedule that respects what
it needs. -/
theorem always_exec {G : κ → σ → σ → Prop} {P : Pool ι κ σ ε α} {i : ι}
    (h : (P.thread i).Always I G Q) {schedule : List ι}
    (hI : P.Respects (fun P _ => I P.shared) schedule) :
    ((P.exec schedule).thread i).Always I G Q := by
  induction schedule generalizing P with
  | nil => exact h
  | cons j rest ih => exact ih (always_turn hI.1 h) hI.2

theorem respects_append {C : Pool ι κ σ ε α → ι → Prop} {P : Pool ι κ σ ε α}
    {first rest : List ι} :
    P.Respects C (first ++ rest) ↔ P.Respects C first ∧ (P.exec first).Respects C rest := by
  induction first generalizing P with
  | nil => simp [Pool.Respects, Pool.exec]
  | cons i first ih =>
    simp only [List.cons_append, Pool.Respects, ih, and_assoc]
    rfl

end Pools

end AoMarket.Survival
