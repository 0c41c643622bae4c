import AoMarket.Coroutine

/-!
Coroutines that cannot tell related states apart. `Oblivious E p` asks that from states
related by `E` each call of `p` leads to related states and to the same continuation, so
two runs from related states make the same calls, end the same way and stay related.
-/

namespace AoMarket.Obliviousness

open Coroutine

variable {κ σ ε α β : Type}

def Oblivious (E : σ → σ → Prop) : Coro κ σ ε α → Prop
  | .ret _ => True
  | .raise _ => True
  | .step _ update next => ∀ s s', E s s' →
    E (update s) (update s') ∧ next s' = next s ∧ Oblivious E (next s)

variable {E : σ → σ → Prop}

theorem Oblivious.pure (a : α) : Oblivious E (pure a : Coro κ σ ε α) := trivial

theorem Oblivious.throw (e : ε) : Oblivious E (throw e : Coro κ σ ε α) := trivial

theorem Oblivious.ofExcept (r : Except ε α) : Oblivious E (Coro.ofExcept r : Coro κ σ ε α) := by
  cases r with
  | ok a => exact Oblivious.pure a
  | error e => exact Oblivious.throw e

theorem Oblivious.bind {p : Coro κ σ ε α} {f : α → Coro κ σ ε β} (hp : Oblivious E p)
    (hf : ∀ a, Oblivious E (f a)) : Oblivious E (p >>= f) := by
  induction p with
  | ret a => exact hf a
  | raise e => exact Oblivious.throw e
  | step call u k ih =>
    intro s s' hs
    obtain ⟨hstep, hnext, hrest⟩ := hp s s' hs
    exact ⟨hstep, congrArg (fun q => Coro.bind q f) hnext, ih s hrest⟩

theorem Oblivious.handle {p : Coro κ σ ε α} {h : ε → Coro κ σ ε α} (hp : Oblivious E p)
    (hh : ∀ e, Oblivious E (h e)) : Oblivious E (tryCatch p h) := by
  induction p with
  | ret a => exact Oblivious.pure a
  | raise e => exact hh e
  | step call u k ih =>
    intro s s' hs
    obtain ⟨hstep, hnext, hrest⟩ := hp s s' hs
    exact ⟨hstep, congrArg (fun q => Coro.handle q h) hnext, ih s hrest⟩

theorem Oblivious.act {call : κ} {f : σ → Except ε α × σ}
    (h : ∀ s s', E s s' → (f s').1 = (f s).1 ∧ E (f s).2 (f s').2) :
    Oblivious E (Coro.act call f) := by
  intro s s' hs
  obtain ⟨hres, hstep⟩ := h s s' hs
  exact ⟨hstep, congrArg Coro.ofExcept hres, Oblivious.ofExcept _⟩

/-- A result may differ between the two runs where the rest of them does not look at it. -/
theorem Oblivious.act_bind {call : κ} {f : σ → Except ε α × σ} {g : α → Coro κ σ ε β}
    (h : ∀ s s', E s s' → E (f s).2 (f s').2 ∧
      (Coro.ofExcept (f s').1 >>= g) = (Coro.ofExcept (f s).1 >>= g) ∧
      Oblivious E (Coro.ofExcept (f s).1 >>= g)) :
    Oblivious E (Coro.act call f >>= g) := h

theorem Oblivious.mapM {f : β → Coro κ σ ε α} (hf : ∀ b, Oblivious E (f b)) (bs : List β) :
    Oblivious E (bs.mapM f) := by
  induction bs with
  | nil => exact Oblivious.pure []
  | cons b rest ih =>
    rw [List.mapM_cons]
    exact Oblivious.bind (hf b) fun a => Oblivious.bind ih fun as => Oblivious.pure (a :: as)

/-- Runs from related states end with the same outcome, in related states. -/
theorem Oblivious.run {p : Coro κ σ ε α} (hp : Oblivious E p) {s s' : σ} (hs : E s s') :
    (p.run s').1 = (p.run s).1 ∧ E (p.run s).2 (p.run s').2 := by
  induction p generalizing s s' with
  | ret a => exact ⟨rfl, hs⟩
  | raise e => exact ⟨rfl, hs⟩
  | step call u k ih =>
    obtain ⟨hstep, hnext, hrest⟩ := hp s s' hs
    have hrun := ih s hrest hstep
    show ((k s').run (u s')).1 = ((k s).run (u s)).1 ∧ E ((k s).run (u s)).2 ((k s').run (u s')).2
    rw [hnext]
    exact hrun

/-- Coroutines run one after the other, whatever each of them raises. -/
def runEach (f : β → Coro κ σ ε α) : List β → σ → List (Except ε α) × σ
  | [], s => ([], s)
  | b :: rest, s =>
    let (r, t) := (f b).run s
    let (rs, u) := runEach f rest t
    (r :: rs, u)

/-- A list of oblivious coroutines is oblivious, by induction over the list. -/
theorem runEach_oblivious {f : β → Coro κ σ ε α} {bs : List β}
    (h : ∀ b ∈ bs, Oblivious E (f b)) {s s' : σ} (hs : E s s') :
    (runEach f bs s').1 = (runEach f bs s).1 ∧ E (runEach f bs s).2 (runEach f bs s').2 := by
  induction bs generalizing s s' with
  | nil => exact ⟨rfl, hs⟩
  | cons b rest ih =>
    obtain ⟨hres, hstep⟩ := (h b List.mem_cons_self).run hs
    obtain ⟨hrest, hend⟩ := ih (fun c hc => h c (List.mem_cons_of_mem b hc)) hstep
    exact ⟨congrArg₂ List.cons hres hrest, hend⟩

end AoMarket.Obliviousness
