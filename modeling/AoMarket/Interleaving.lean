import AoMarket.Coroutine

/-!
Several coroutines over one shared state. A schedule names whose turn it is; a
turn performs one awaited call of that coroutine, and a finished coroutine
passes. `Respects` asks a condition of the pool before every turn, so a
discipline such as "one at a time" is a condition on schedules, not on programs.
-/

namespace AoMarket.Interleaving

open Coroutine

/-- `calls i` lists the calls coroutine `i` has made, the latest first. -/
structure Pool (ι κ σ ε α : Type) where
  shared : σ
  thread : ι → Coro κ σ ε α
  calls : ι → List κ

variable {ι κ σ ε α : Type} [DecidableEq ι]

namespace Pool

def start (s : σ) (progs : ι → Coro κ σ ε α) : Pool ι κ σ ε α :=
  ⟨s, progs, fun _ => []⟩

def turn (P : Pool ι κ σ ε α) (i : ι) : Pool ι κ σ ε α :=
  match P.thread i with
  | .step call update next =>
    { shared := update P.shared
      thread := Function.update P.thread i (next P.shared)
      calls := Function.update P.calls i (call :: P.calls i) }
  | _ => P

def exec (P : Pool ι κ σ ε α) (schedule : List ι) : Pool ι κ σ ε α :=
  schedule.foldl turn P

def Respects (C : Pool ι κ σ ε α → ι → Prop) : Pool ι κ σ ε α → List ι → Prop
  | _, [] => True
  | P, i :: rest => C P i ∧ Respects C (P.turn i) rest

instance decidableRespects {C : Pool ι κ σ ε α → ι → Prop} [h : ∀ P i, Decidable (C P i)] :
    (P : Pool ι κ σ ε α) → (schedule : List ι) → Decidable (Respects C P schedule)
  | _, [] => .isTrue trivial
  | P, i :: rest => @instDecidableAnd _ _ (h P i) (decidableRespects (P.turn i) rest)

theorem turn_of_step {P : Pool ι κ σ ε α} {i : ι} {call : κ} {u : σ → σ}
    {k : σ → Coro κ σ ε α} (h : P.thread i = .step call u k) :
    P.turn i =
      { shared := u P.shared
        thread := Function.update P.thread i (k P.shared)
        calls := Function.update P.calls i (call :: P.calls i) } := by
  simp only [turn, h]

theorem turn_of_finished {P : Pool ι κ σ ε α} {i : ι} (h : (P.thread i).Finished) :
    P.turn i = P := by
  unfold turn
  split
  · next call u k heq =>
    rw [heq] at h
    simp [Coro.Finished, Coro.waiting] at h
  · rfl

theorem Respects.mono {C C' : Pool ι κ σ ε α → ι → Prop} {P : Pool ι κ σ ε α} {schedule : List ι}
    (h : Respects C P schedule) (hC : ∀ P i, C P i → C' P i) : Respects C' P schedule := by
  induction schedule generalizing P with
  | nil => trivial
  | cons i rest ih => exact ⟨hC P i h.1, ih h.2⟩

/-- A condition kept by every turn that respects `C` holds after the schedule. -/
theorem exec_invariant {C : Pool ι κ σ ε α → ι → Prop} {J : Pool ι κ σ ε α → Prop}
    (hturn : ∀ P i, C P i → J P → J (P.turn i)) {P : Pool ι κ σ ε α} {schedule : List ι}
    (hC : Respects C P schedule) (hJ : J P) : J (P.exec schedule) := by
  induction schedule generalizing P with
  | nil => exact hJ
  | cons i rest ih => exact ih hC.2 (hturn P i hC.1 hJ)

/-- The names of the calls play no part in what a schedule does. -/
theorem shared_exec_relabel {κ' : Type} (f : κ → κ') (P : Pool ι κ σ ε α) (schedule : List ι)
    (Q : Pool ι κ' σ ε α) (hshared : Q.shared = P.shared)
    (hthread : ∀ i, Q.thread i = (P.thread i).relabel f) :
    (Q.exec schedule).shared = (P.exec schedule).shared := by
  induction schedule generalizing P Q with
  | nil => exact hshared
  | cons i rest ih =>
    cases hi : P.thread i with
    | step call u k =>
      have hstep : Q.thread i = .step (f call) u fun s => (k s).relabel f := by
        rw [hthread i, hi]
        rfl
      refine ih (P.turn i) (Q.turn i) ?_ ?_
      · rw [turn_of_step hi, turn_of_step hstep, hshared]
      · intro j
        rw [turn_of_step hi, turn_of_step hstep]
        by_cases hji : j = i
        · subst hji
          simp [hshared]
        · simpa [Function.update_of_ne hji] using hthread j
    | ret a | raise e =>
      have hfinished : (P.thread i).Finished := by rw [hi]; rfl
      have hfinished' : (Q.thread i).Finished := by rw [hthread i, hi]; rfl
      refine ih (P.turn i) (Q.turn i) ?_ ?_
      · rw [turn_of_finished hfinished, turn_of_finished hfinished', hshared]
      · rw [turn_of_finished hfinished, turn_of_finished hfinished']
        exact hthread

end Pool

end AoMarket.Interleaving
