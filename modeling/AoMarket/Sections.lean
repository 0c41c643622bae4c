import AoMarket.Interleaving

/-!
Coroutines that work on one resource in sections, among others that leave it
alone. `Under` is a run with other coroutines' calls in between. A discipline says
which calls open a section and belong to it, what holds while nobody is in one and
what must hold at all times; a pool in which no section opens inside another, and
none is broken off, is safe in every state.
-/

namespace AoMarket.Sections

open Coroutine Interleaving

variable {ι κ σ ε α β : Type}

/-! Runs with interference -/

/-- Run from a state, with steps of `R` before each call, the coroutine finds `I` at every
call, returns its value where `Q` holds and raises where `E` holds. -/
def Under (R : σ → σ → Prop) (I : σ → Prop) (Q : α → σ → Prop) (E : σ → Prop) :
    Coro κ σ ε α → σ → Prop
  | .ret a, s => Q a s
  | .raise _, s => E s
  | .step _ update next, s => I s ∧ ∀ s', R s s' → Under R I Q E (next s') (update s')

section Under
variable {R : σ → σ → Prop} {I E : σ → Prop} {Q : α → σ → Prop} {Q' : β → σ → Prop} {s : σ}

theorem Under.bind {p : Coro κ σ ε α} {f : α → Coro κ σ ε β}
    (hp : Under R I (fun a s => Under R I Q' E (f a) s) E p s) : Under R I Q' E (p >>= f) s := by
  induction p generalizing s with
  | ret a => exact hp
  | raise e => exact hp
  | step call u k ih => exact ⟨hp.1, fun s' hs' => ih s' (hp.2 s' hs')⟩

theorem Under.ofExcept {r : Except ε α} (hok : ∀ a, r = .ok a → Q a s)
    (herror : ∀ e, r = .error e → E s) : Under R I Q E (Coro.ofExcept r : Coro κ σ ε α) s := by
  cases r with
  | ok a => exact hok a rfl
  | error e => exact herror e rfl

theorem Under.act {call : κ} {g : σ → Except ε α × σ} (hI : I s)
    (hok : ∀ s' a t, R s s' → g s' = (.ok a, t) → Q a t)
    (herror : ∀ s' e t, R s s' → g s' = (.error e, t) → E t) :
    Under R I Q E (Coro.act call g) s := by
  refine ⟨hI, fun s' hs' => Under.ofExcept ?_ ?_⟩
  · exact fun a ha => hok s' a _ hs' (Prod.ext ha rfl)
  · exact fun e he => herror s' e _ hs' (Prod.ext he rfl)

theorem Under.mono {p : Coro κ σ ε α} {P : α → σ → Prop} (hp : Under R I Q E p s)
    (hQ : ∀ a s, Q a s → P a s) : Under R I P E p s := by
  induction p generalizing s with
  | ret a => exact hQ a s hp
  | raise e => exact hp
  | step call u k ih => exact ⟨hp.1, fun s' hs' => ih s' (hp.2 s' hs')⟩

theorem under_relabel {κ' : Type} {f : κ → κ'} {p : Coro κ σ ε α} :
    Under R I Q E (p.relabel f) s ↔ Under R I Q E p s := by
  induction p generalizing s with
  | ret a => exact Iff.rfl
  | raise e => exact Iff.rfl
  | step call u k ih => exact and_congr Iff.rfl (forall₂_congr fun s' _ => ih s')

/-- What every call of the coroutine keeps, and the others keep, holds throughout. -/
theorem Under.invariant {A : σ → Prop} {V : α → Prop} {p : Coro κ σ ε α}
    (hp : p.Always A (fun _ _ s' => A s') V) (hstable : ∀ s s', R s s' → A s → A s')
    (hI : ∀ s, A s → I s) (hE : ∀ s, A s → E s) (hs : A s) :
    Under R I (fun a s => V a ∧ A s) E p s := by
  induction p generalizing s with
  | ret a => exact ⟨Coro.always_ret.mp hp, hs⟩
  | raise e => exact hE s hs
  | step call u k ih =>
    rw [Coro.always_step] at hp
    refine ⟨hI s hs, fun s' hs' => ?_⟩
    obtain ⟨hstep, hnext⟩ := hp s' (hstable s s' hs' hs)
    exact ih s' hnext hstep

end Under

/-! Sections -/

/-- `opens` are the first calls of sections and `within` the later ones; `returns` are the
calls that must not raise. A section opens where `enters` holds. -/
structure Discipline (κ σ : Type) where
  opens : κ → Bool
  within : κ → Bool
  returns : κ → Bool
  enters : κ → σ → Prop
  others : σ → σ → Prop
  settled : σ → Prop
  safe : σ → Prop
  others_refl : ∀ s, others s s
  others_trans : ∀ {s s' s''}, others s s' → others s' s'' → others s s''
  settled_others : ∀ {s s'}, others s s' → settled s → settled s'
  safe_others : ∀ {s s'}, others s s' → safe s → safe s'
  safe_of_settled : ∀ {s}, settled s → safe s

variable (D : Discipline κ σ)

/-- A coroutine keeps the discipline: outside a section (`none`), or in one that the shared
state has been left in (`some s`). -/
inductive Sectioned : Option σ → Coro κ σ ε α → Prop
  | finished {p} (h : p.Finished) : Sectioned none p
  | outside {call u k}
      (hcall : ∀ s, D.opens call = false ∧ D.within call = false ∧ D.others s (u s))
      (hnext : ∀ s, Sectioned none (k s)) : Sectioned none (.step call u k)
  | opens {call u k} (hopens : D.opens call = true) (hwithin : D.within call = false)
      (hnext : ∀ s, D.settled s → D.enters call s → Sectioned (some (u s)) (k s)) :
      Sectioned none (.step call u k)
  | within {call u k s} (hwithin : D.within call = true) (hsafe : D.safe s)
      (hnext : ∀ s', D.others s s' → (D.returns call = true → (k s').raised = false) →
        Sectioned (some (u s')) (k s')) : Sectioned (some s) (.step call u k)
  | leaves {p s} (hsettled : D.settled s) (hnext : Sectioned none p) : Sectioned (some s) p

def Within (p : Coro κ σ ε α) : Prop := ∃ call, p.waiting = some call ∧ D.within call = true

section Rules
variable {D} {p : Coro κ σ ε α} {f : α → Coro κ σ ε β} {s s' : σ}

theorem Sectioned.stable (h : Sectioned D (some s) p) (hs : D.others s s') :
    Sectioned D (some s') p := by
  cases h with
  | within hwithin hsafe hnext =>
    refine .within hwithin (D.safe_others hs hsafe) fun t ht => ?_
    exact hnext t (D.others_trans hs ht)
  | leaves hsettled hnext => exact .leaves (D.settled_others hs hsettled) hnext

/-- Calls outside the sections may come first. -/
theorem Sectioned.bind_outside
    (hp : p.Always (fun _ => True)
      (fun c s s' => D.opens c = false ∧ D.within c = false ∧ D.others s s') fun _ => True)
    (hf : ∀ a, Sectioned D none (f a)) : Sectioned D none (p >>= f) := by
  induction p with
  | ret a => exact hf a
  | raise e => exact .finished rfl
  | step call u k ih =>
    rw [Coro.always_step] at hp
    refine .outside ?_ ?_
    · exact fun s => (hp s trivial).1
    · exact fun s => ih s (hp s trivial).2

/-- The first call of a section; it may raise. -/
theorem sectioned_open {call : κ} {g : σ → Except ε α × σ} (hopens : D.opens call = true)
    (hwithin : D.within call = false)
    (hok : ∀ s a t, D.settled s → D.enters call s → g s = (.ok a, t) →
      Sectioned D (some t) (f a))
    (herror : ∀ s e t, D.settled s → D.enters call s → g s = (.error e, t) → D.settled t) :
    Sectioned D none (Coro.act call g >>= f) := by
  refine .opens hopens hwithin fun s hs henters => ?_
  show Sectioned D (some (g s).2) (Coro.ofExcept (g s).1 >>= f)
  rcases hg : g s with ⟨e | a, t⟩
  · exact .leaves (herror s e t hs henters hg) (.finished rfl)
  · exact hok s a t hs henters hg

/-- Calls of a section that may raise as long as the resource is settled. -/
theorem Sectioned.bind_within (hcalls : p.Calls fun c => D.within c = true)
    (hp : Under D.others D.safe (fun a s => Sectioned D (some s) (f a)) D.settled p s) :
    Sectioned D (some s) (p >>= f) := by
  replace hcalls := hcalls.always (I := fun _ => True)
  induction p generalizing s with
  | ret a => exact hp
  | raise e => exact .leaves hp (.finished rfl)
  | step call u k ih =>
    rw [Coro.always_step] at hcalls
    refine .within (hcalls s trivial).1 hp.1 fun s' hs' _ => ?_
    exact ih s' (hp.2 s' hs') (hcalls s' trivial).2

/-- Calls of a section none of which may raise. -/
theorem Sectioned.bind_returns
    (hcalls : p.Calls fun c => D.within c = true ∧ D.returns c = true)
    (hraised : p.raised = false)
    (hp : Under D.others D.safe (fun a s => Sectioned D (some s) (f a)) (fun _ => True) p s) :
    Sectioned D (some s) (p >>= f) := by
  replace hcalls := hcalls.always (I := fun _ => True)
  induction p generalizing s with
  | ret a => exact hp
  | raise e => cases hraised
  | step call u k ih =>
    rw [Coro.always_step] at hcalls
    obtain ⟨hwithin, hreturns⟩ := (hcalls s trivial).1
    refine .within hwithin hp.1 fun s' hs' hnext => ?_
    refine ih s' ?_ (hp.2 s' hs') (hcalls s' trivial).2
    -- A part that raises would end the whole by its exception.
    by_contra hr
    have hfails := Coro.raised_bind (by simpa using hr) f
    have hreturned : (k s' >>= f).raised = false := hnext hreturns
    rw [hreturned] at hfails
    cases hfails

end Rules

/-! Pools -/

/-- Nobody is in a section and the resource is settled, or exactly one coroutine is. -/
inductive Orderly (P : Pool ι κ σ ε α) : Prop
  | settled (hsettled : D.settled P.shared) (hall : ∀ i, Sectioned D none (P.thread i))
  | occupied (i : ι) (hwithin : Within D (P.thread i))
      (hin : Sectioned D (some P.shared) (P.thread i))
      (hrest : ∀ j, j ≠ i → Sectioned D none (P.thread j))

section Orderly
variable {D} {P : Pool ι κ σ ε α}

theorem Orderly.safe (h : Orderly D P) : D.safe P.shared := by
  cases h with
  | settled hsettled hall => exact D.safe_of_settled hsettled
  | occupied i hwithin hin hrest =>
    generalize P.thread i = p at hin
    cases hin with
    | within hcall hsafe hnext => exact hsafe
    | leaves hsettled hnext => exact D.safe_of_settled hsettled

/-- Where one coroutine may be in a section and the others are not, the pool is orderly. -/
theorem orderly_of_one {i : ι} (hin : Sectioned D (some P.shared) (P.thread i))
    (hrest : ∀ j, j ≠ i → Sectioned D none (P.thread j)) : Orderly D P := by
  have hcase : Within D (P.thread i) ∨ D.settled P.shared ∧ Sectioned D none (P.thread i) := by
    generalize P.thread i = p at hin
    cases hin with
    | within hcall hsafe hnext => exact Or.inl ⟨_, rfl, hcall⟩
    | leaves hsettled hnext => exact Or.inr ⟨hsettled, hnext⟩
  rcases hcase with hwithin | ⟨hsettled, hout⟩
  · exact .occupied i hwithin hin hrest
  · refine .settled hsettled fun j => ?_
    by_cases hji : j = i
    · rw [hji]
      exact hout
    · exact hrest j hji

end Orderly

variable [DecidableEq ι]

/-- A section opens only where it may and while nobody else is in one, and no call that must
return raises. -/
def Admits (P : Pool ι κ σ ε α) (i : ι) : Prop :=
  ∀ call, (P.thread i).waiting = some call →
    (D.opens call = true → D.enters call P.shared ∧ ∀ j, j ≠ i → ¬ Within D (P.thread j)) ∧
    (D.returns call = true → ((P.turn i).thread i).raised = false)

section Pools
variable {D} {P : Pool ι κ σ ε α} {i : ι}

section Turn
variable {call : κ} {u : σ → σ} {k : σ → Coro κ σ ε α}

theorem thread_turn_self (h : P.thread i = .step call u k) :
    (P.turn i).thread i = k P.shared := by
  rw [Pool.turn_of_step h]
  exact Function.update_self ..

theorem thread_turn_of_ne {j : ι} (h : P.thread i = .step call u k) (hji : j ≠ i) :
    (P.turn i).thread j = P.thread j := by
  rw [Pool.turn_of_step h]
  exact Function.update_of_ne hji ..

theorem shared_turn (h : P.thread i = .step call u k) : (P.turn i).shared = u P.shared := by
  rw [Pool.turn_of_step h]

/-- A turn while nobody is in a section may open one. -/
theorem turn_of_settled (h : P.thread i = .step call u k) (hC : Admits D P i)
    (hsettled : D.settled P.shared) (hall : ∀ i, Sectioned D none (P.thread i)) :
    Orderly D (P.turn i) := by
  obtain ⟨hopen, _⟩ := hC call (by rw [h]; rfl)
  have hrest : ∀ j, j ≠ i → Sectioned D none ((P.turn i).thread j) := by
    intro j hji
    rw [thread_turn_of_ne h hji]
    exact hall j
  have hout := hall i
  rw [h] at hout
  cases hout with
  | finished hfin => simp [Coro.Finished, Coro.waiting] at hfin
  | outside hcall hnext =>
    refine .settled ?_ fun j => ?_
    · rw [shared_turn h]
      exact D.settled_others (hcall P.shared).2.2 hsettled
    · by_cases hji : j = i
      · rw [hji, thread_turn_self h]
        exact hnext P.shared
      · exact hrest j hji
  | opens hopens hwithin hnext =>
    refine orderly_of_one ?_ hrest
    rw [shared_turn h, thread_turn_self h]
    exact hnext P.shared hsettled (hopen hopens).1

/-- A turn of the coroutine in the section stays in it or leaves it. -/
theorem turn_of_within (h : P.thread i = .step call u k) (hC : Admits D P i)
    (hwithin : Within D (P.thread i)) (hin : Sectioned D (some P.shared) (P.thread i))
    (hrest : ∀ j, j ≠ i → Sectioned D none (P.thread j)) : Orderly D (P.turn i) := by
  obtain ⟨_, hreturn⟩ := hC call (by rw [h]; rfl)
  rw [h] at hin hwithin
  obtain ⟨c, hc, hcall⟩ := hwithin
  cases hc
  refine orderly_of_one (i := i) ?_ fun j hji => ?_
  · rw [thread_turn_self h] at hreturn
    rw [shared_turn h, thread_turn_self h]
    cases hin with
    | within hcall hsafe hnext => exact hnext P.shared (D.others_refl _) hreturn
    | leaves hsettled hnext =>
      cases hnext with
      | finished hfin => simp [Coro.Finished, Coro.waiting] at hfin
      | outside hout hnext =>
        rw [(hout P.shared).2.1] at hcall
        cases hcall
      | opens hopens hout hnext =>
        rw [hout] at hcall
        cases hcall
  · rw [thread_turn_of_ne h hji]
    exact hrest j hji

/-- A turn of another coroutine leaves the section as it is. -/
theorem turn_of_other {j : ι} (h : P.thread i = .step call u k) (hji : j ≠ i)
    (hC : Admits D P i) (hwithin : Within D (P.thread j))
    (hin : Sectioned D (some P.shared) (P.thread j))
    (hrest : ∀ l, l ≠ j → Sectioned D none (P.thread l)) : Orderly D (P.turn i) := by
  obtain ⟨hopen, _⟩ := hC call (by rw [h]; rfl)
  have hout := hrest i (Ne.symm hji)
  rw [h] at hout
  cases hout with
  | finished hfin => simp [Coro.Finished, Coro.waiting] at hfin
  | opens hopens hcall hnext => exact absurd hwithin ((hopen hopens).2 j hji)
  | outside hcall hnext =>
    refine orderly_of_one (i := j) ?_ fun l hl => ?_
    · rw [shared_turn h, thread_turn_of_ne h hji]
      exact hin.stable (hcall P.shared).2.2
    · by_cases hli : l = i
      · rw [hli, thread_turn_self h]
        exact hnext P.shared
      · rw [thread_turn_of_ne h hli]
        exact hrest l hl

end Turn

/-- A turn of any coroutine keeps the sections orderly, by what its next call opens or closes. -/
theorem turn_orderly (hC : Admits D P i) (hP : Orderly D P) : Orderly D (P.turn i) := by
  cases hthread : P.thread i with
  | ret a => rwa [Pool.turn_of_finished (by rw [hthread]; rfl)]
  | raise e => rwa [Pool.turn_of_finished (by rw [hthread]; rfl)]
  | step call u k =>
    cases hP with
    | settled hsettled hall => exact turn_of_settled hthread hC hsettled hall
    | occupied j hwithin hin hrest =>
      by_cases hji : j = i
      · subst hji
        exact turn_of_within hthread hC hwithin hin hrest
      · exact turn_of_other hthread hji hC hwithin hin hrest

/-- Coroutines that keep the discipline are safe in every state of every interleaving that
admits their sections. -/
theorem exec_safe {s : σ} {progs : ι → Coro κ σ ε α} {schedule : List ι} (hs : D.settled s)
    (hprogs : ∀ i, Sectioned D none (progs i))
    (hC : Pool.Respects (Admits D) (Pool.start s progs) schedule) :
    D.safe ((Pool.start s progs).exec schedule).shared := by
  have hstart : Orderly D (Pool.start s progs) := .settled hs hprogs
  exact (Pool.exec_invariant (fun P i => turn_orderly) hC hstart).safe

end Pools

end AoMarket.Sections
