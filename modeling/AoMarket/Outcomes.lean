import AoMarket.Coroutine

/-!
How runs end: `Yields` has one postcondition for the value a run returns and one
for the exception it raises, both on the state it ends in. What was done before an
exception stays done, so a sequence that raises in its second part ends where that
part does.
-/

namespace AoMarket.Outcomes

open Coroutine

variable {κ σ ε α β : Type}

/-- The run from `s` returns and satisfies `Q`, or raises and satisfies `E`. -/
def Yields (p : Coro κ σ ε α) (s : σ) (Q : α → σ → Prop) (E : ε → σ → Prop) : Prop :=
  match p.run s with
  | (.ok a, t) => Q a t
  | (.error e, t) => E e t

section Rules
variable {p : Coro κ σ ε α} {s : σ} {Q : α → σ → Prop} {E : ε → σ → Prop}

theorem Yields.ok (h : Yields p s Q E) {a : α} {t : σ} (hrun : p.run s = (.ok a, t)) : Q a t := by
  simpa [Yields, hrun] using h

theorem Yields.error (h : Yields p s Q E) {e : ε} {t : σ} (hrun : p.run s = (.error e, t)) :
    E e t := by
  simpa [Yields, hrun] using h

theorem Yields.of_run (hok : ∀ a t, p.run s = (.ok a, t) → Q a t)
    (herror : ∀ e t, p.run s = (.error e, t) → E e t) : Yields p s Q E := by
  unfold Yields
  split
  · next a t hrun => exact hok a t hrun
  · next e t hrun => exact herror e t hrun

theorem Yields.pure {a : α} (h : Q a s) : Yields (pure a : Coro κ σ ε α) s Q E := h

theorem Yields.throw {e : ε} (h : E e s) : Yields (throw e : Coro κ σ ε α) s Q E := h

theorem Yields.ofExcept {r : Except ε α} (hok : ∀ a, r = .ok a → Q a s)
    (herror : ∀ e, r = .error e → E e s) : Yields (Coro.ofExcept r : Coro κ σ ε α) s Q E := by
  cases r with
  | ok a => exact hok a rfl
  | error e => exact herror e rfl

theorem Yields.bind {f : α → Coro κ σ ε β} {R : β → σ → Prop} (hp : Yields p s Q E)
    (hf : ∀ a t, Q a t → Yields (f a) t R E) : Yields (p >>= f) s R E := by
  rcases hrun : p.run s with ⟨e | a, t⟩
  · rw [Yields, Coro.run_bind_error hrun]
    exact hp.error hrun
  · rw [Yields, Coro.run_bind_ok hrun]
    exact hf a t (hp.ok hrun)

/-- After a step without a call the state is the same. -/
theorem Yields.bind_except {r : Except ε α} {f : α → Coro κ σ ε β} {R : β → σ → Prop}
    (hok : ∀ a, r = .ok a → Yields (f a) s R E) (herror : ∀ e, r = .error e → E e s) :
    Yields (Coro.ofExcept r >>= f) s R E := by
  cases r with
  | ok a => exact hok a rfl
  | error e => exact herror e rfl

/-- One call, and what follows it. -/
theorem Yields.bind_act {call : κ} {g : σ → Except ε α × σ} {f : α → Coro κ σ ε β}
    {R : β → σ → Prop} (hok : ∀ a t, g s = (.ok a, t) → Yields (f a) t R E)
    (herror : ∀ e t, g s = (.error e, t) → E e t) : Yields (Coro.act call g >>= f) s R E := by
  refine Yields.bind (Q := fun a t => g s = (.ok a, t)) (.of_run ?_ ?_) hok
  · intro a t hrun
    rwa [Coro.run_act] at hrun
  · intro e t hrun
    rw [Coro.run_act] at hrun
    exact herror e t hrun

theorem Yields.handle {h : ε → Coro κ σ ε α} {E' : ε → σ → Prop} (hp : Yields p s Q E')
    (hh : ∀ e t, E' e t → Yields (h e) t Q E) : Yields (tryCatch p h) s Q E := by
  rw [Yields, Coro.run_handle]
  rcases hrun : p.run s with ⟨e | a, t⟩
  · exact hh e t (hp.error hrun)
  · exact hp.ok hrun

theorem Yields.mono {Q' : α → σ → Prop} {E' : ε → σ → Prop} (h : Yields p s Q E)
    (hQ : ∀ a t, Q a t → Q' a t) (hE : ∀ e t, E e t → E' e t) : Yields p s Q' E' :=
  .of_run (fun a t hrun => hQ a t (h.ok hrun)) fun e t hrun => hE e t (h.error hrun)

theorem Yields.and {Q' : α → σ → Prop} {E' : ε → σ → Prop} (h : Yields p s Q E)
    (h' : Yields p s Q' E') :
    Yields p s (fun a t => Q a t ∧ Q' a t) fun e t => E e t ∧ E' e t :=
  .of_run (fun _ _ hrun => ⟨h.ok hrun, h'.ok hrun⟩) fun _ _ hrun => ⟨h.error hrun, h'.error hrun⟩

/-- The run returns. -/
abbrev Returns (p : Coro κ σ ε α) (s : σ) (Q : α → σ → Prop) : Prop := Yields p s Q fun _ _ => False

/-- After a part that returns, only the rest can raise. -/
theorem Returns.bind {f : α → Coro κ σ ε β} {R : β → σ → Prop} (hp : Returns p s Q)
    (hf : ∀ a t, Q a t → Yields (f a) t R E) : Yields (p >>= f) s R E :=
  Yields.bind (hp.mono (fun _ _ h => h) fun _ _ h => h.elim) hf

theorem Returns.and {Q' : α → σ → Prop} {E' : ε → σ → Prop} (h : Returns p s Q)
    (h' : Yields p s Q' E') : Returns p s fun a t => Q a t ∧ Q' a t :=
  (Yields.and h h').mono (fun _ _ h => h) fun _ _ h => h.1

theorem Returns.exists_run (h : Returns p s Q) : ∃ a t, p.run s = (.ok a, t) ∧ Q a t := by
  rcases hrun : p.run s with ⟨e | a, t⟩
  · exact (h.error hrun).elim
  · exact ⟨a, t, rfl, h.ok hrun⟩

/-- Where the condition is known at either end, it is known whether the run returns. -/
theorem Yields.isOk_iff {C : Prop} (h : Yields p s (fun _ _ => C) fun _ _ => ¬ C) :
    (p.run s).1.isOk = true ↔ C := by
  rcases hrun : p.run s with ⟨e | a, t⟩
  · have hnot := h.error hrun
    simp [Except.isOk, Except.toBool, hnot]
  · have hc := h.ok hrun
    simp [Except.isOk, Except.toBool, hc]

end Rules

end AoMarket.Outcomes
