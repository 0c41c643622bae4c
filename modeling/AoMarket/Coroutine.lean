import Mathlib.Logic.Function.Basic
import Mathlib.Data.List.Basic

/-!
Coroutines as finite trees of awaited calls. A call is atomic: it updates the
shared state, and what follows it depends on the state it ran on. `run` executes
one tree alone; an exception keeps the state reached so far. `Always` is the
rule book: it follows the tree and says what every call may assume, what it
guarantees and which values the tree may return.
-/

namespace AoMarket.Coroutine

/-- `κ` names the awaited calls, `σ` is the shared state, `ε` the exceptions. -/
inductive Coro (κ σ ε α : Type) where
  | ret (a : α)
  | raise (e : ε)
  | step (call : κ) (update : σ → σ) (next : σ → Coro κ σ ε α)

variable {κ σ ε α β γ : Type}

namespace Coro

def bind : Coro κ σ ε α → (α → Coro κ σ ε β) → Coro κ σ ε β
  | ret a, f => f a
  | raise e, _ => raise e
  | step call update next, f => step call update (fun s => (next s).bind f)

/-- `try p except e: h e`. -/
def handle : Coro κ σ ε α → (ε → Coro κ σ ε α) → Coro κ σ ε α
  | ret a, _ => ret a
  | raise e, h => h e
  | step call update next, h => step call update (fun s => (next s).handle h)

instance : Monad (Coro κ σ ε) where
  pure := ret
  bind := bind

instance : MonadExceptOf ε (Coro κ σ ε) where
  throw := raise
  tryCatch := handle

def ofExcept : Except ε α → Coro κ σ ε α
  | .ok a => ret a
  | .error e => raise e

/-- One awaited call that may raise; its state change is kept either way. -/
def act (call : κ) (f : σ → Except ε α × σ) : Coro κ σ ε α :=
  step call (fun s => (f s).2) (fun s => ofExcept (f s).1)

def run : Coro κ σ ε α → σ → Except ε α × σ
  | ret a, s => (.ok a, s)
  | raise e, s => (.error e, s)
  | step _ update next, s => (next s).run (update s)

def waiting : Coro κ σ ε α → Option κ
  | step call _ _ => some call
  | _ => none

def Finished (p : Coro κ σ ε α) : Prop := p.waiting = none

/-- An exception has ended the coroutine. -/
def raised : Coro κ σ ε α → Bool
  | raise _ => true
  | _ => false

def relabel {κ' : Type} (f : κ → κ') : Coro κ σ ε α → Coro κ' σ ε α
  | ret a => ret a
  | raise e => raise e
  | step call update next => step (f call) update fun s => (next s).relabel f

@[simp] theorem bind_ret (a : α) (f : α → Coro κ σ ε β) : (pure a >>= f) = f a := rfl

theorem bind_pure (p : Coro κ σ ε α) : (p >>= pure) = p := by
  induction p with
  | ret a => rfl
  | raise e => rfl
  | step call u k ih => exact congrArg (step call u) (funext ih)

theorem bind_assoc (p : Coro κ σ ε α) (f : α → Coro κ σ ε β) (g : β → Coro κ σ ε γ) :
    ((p >>= f) >>= g) = (p >>= fun a => f a >>= g) := by
  induction p with
  | ret a => rfl
  | raise e => rfl
  | step call u k ih => exact congrArg (step call u) (funext ih)

instance : LawfulMonad (Coro κ σ ε) :=
  LawfulMonad.mk' (Coro κ σ ε) bind_pure (fun _ _ => rfl) bind_assoc

@[simp] theorem run_pure (a : α) (s : σ) : (pure a : Coro κ σ ε α).run s = (.ok a, s) := rfl

@[simp] theorem run_throw (e : ε) (s : σ) :
    (throw e : Coro κ σ ε α).run s = (.error e, s) := rfl

@[simp] theorem run_ofExcept (r : Except ε α) (s : σ) :
    (ofExcept r : Coro κ σ ε α).run s = (r, s) := by cases r <;> rfl

@[simp] theorem run_act (call : κ) (f : σ → Except ε α × σ) (s : σ) :
    (act call f).run s = f s := by
  simp [act, run]

theorem run_bind (p : Coro κ σ ε α) (f : α → Coro κ σ ε β) (s : σ) :
    (p >>= f).run s = match p.run s with
      | (.ok a, s') => (f a).run s'
      | (.error e, s') => (.error e, s') := by
  induction p generalizing s with
  | ret a => rfl
  | raise e => rfl
  | step call u k ih => exact ih s (u s)

theorem run_bind_ok {p : Coro κ σ ε α} {s s' : σ} {a : α} (h : p.run s = (.ok a, s'))
    (f : α → Coro κ σ ε β) : (p >>= f).run s = (f a).run s' := by
  rw [run_bind, h]

theorem run_bind_error {p : Coro κ σ ε α} {s s' : σ} {e : ε} (h : p.run s = (.error e, s'))
    (f : α → Coro κ σ ε β) : (p >>= f).run s = (.error e, s') := by
  rw [run_bind, h]

/-- A step without a call only changes the value. -/
theorem run_bind_pure (p : Coro κ σ ε α) (f : α → β) (s : σ) :
    (p >>= fun a => pure (f a)).run s = ((p.run s).1.map f, (p.run s).2) := by
  rw [run_bind]
  rcases p.run s with ⟨_ | a, t⟩ <;> rfl

/-- A sequence that returned ran its first part to a value. -/
theorem run_bind_eq_ok {p : Coro κ σ ε α} {f : α → Coro κ σ ε β} {s s' : σ} {b : β}
    (h : (p >>= f).run s = (.ok b, s')) :
    ∃ a t, p.run s = (.ok a, t) ∧ (f a).run t = (.ok b, s') := by
  rw [run_bind] at h
  rcases hp : p.run s with ⟨_ | a, t⟩
  · rw [hp] at h
    simp at h
  · rw [hp] at h
    exact ⟨a, t, rfl, h⟩

section Relabel
variable {κ' κ'' : Type} (f : κ → κ')

@[simp] theorem relabel_pure (a : α) :
    (pure a : Coro κ σ ε α).relabel f = pure a := rfl

@[simp] theorem relabel_ofExcept (r : Except ε α) :
    (ofExcept r : Coro κ σ ε α).relabel f = ofExcept r := by cases r <;> rfl

@[simp] theorem relabel_act (call : κ) (g : σ → Except ε α × σ) :
    (act call g).relabel f = act (f call) g := by
  simp [act, relabel]

@[simp] theorem relabel_bind (p : Coro κ σ ε α) (g : α → Coro κ σ ε β) :
    (p >>= g).relabel f = (p.relabel f >>= fun a => (g a).relabel f) := by
  induction p with
  | ret a => rfl
  | raise e => rfl
  | step call u k ih => exact congrArg (step (f call) u) (funext ih)

@[simp] theorem raised_relabel (p : Coro κ σ ε α) : (p.relabel f).raised = p.raised := by
  cases p <;> rfl

theorem relabel_relabel (g : κ' → κ'') (p : Coro κ σ ε α) :
    (p.relabel f).relabel g = p.relabel (g ∘ f) := by
  induction p with
  | ret a => rfl
  | raise e => rfl
  | step call u k ih => exact congrArg (step (g (f call)) u) (funext ih)

theorem run_relabel (p : Coro κ σ ε α) (s : σ) : (p.relabel f).run s = p.run s := by
  induction p generalizing s with
  | ret a => rfl
  | raise e => rfl
  | step call u k ih => exact ih s (u s)

theorem relabel_id (p : Coro κ σ ε α) : p.relabel id = p := by
  induction p with
  | ret a => rfl
  | raise e => rfl
  | step call u k ih => exact congrArg (step call u) (funext ih)

end Relabel

theorem raised_bind {p : Coro κ σ ε α} (h : p.raised = true) (f : α → Coro κ σ ε β) :
    (p >>= f).raised = true := by
  cases p with
  | raise e => rfl
  | ret a => cases h
  | step call u k => cases h

theorem run_handle (p : Coro κ σ ε α) (h : ε → Coro κ σ ε α) (s : σ) :
    (tryCatch p h).run s = match p.run s with
      | (.ok a, s') => (.ok a, s')
      | (.error e, s') => (h e).run s' := by
  induction p generalizing s with
  | ret a => rfl
  | raise e => rfl
  | step call u k ih => exact ih s (u s)

/-- Every call, started where `I` holds, relates its two states by `G`, and the
returned value satisfies `Q`. Nothing is asked of an exception. -/
def Always (I : σ → Prop) (G : κ → σ → σ → Prop) (Q : α → Prop) : Coro κ σ ε α → Prop
  | ret a => Q a
  | raise _ => True
  | step call update next => ∀ s, I s → G call s (update s) ∧ Always I G Q (next s)

section Rules
variable {I : σ → Prop} {G : κ → σ → σ → Prop} {Q : α → Prop} {Q' : β → Prop}

theorem Always.pure {a : α} (h : Q a) : Always I G Q (pure a : Coro κ σ ε α) := h

theorem Always.throw (e : ε) : Always I G Q (throw e : Coro κ σ ε α) := trivial

theorem always_ret {a : α} : Always I G Q (ret a : Coro κ σ ε α) ↔ Q a := Iff.rfl

theorem always_step {call : κ} {u : σ → σ} {k : σ → Coro κ σ ε α} :
    Always I G Q (step call u k) ↔ ∀ s, I s → G call s (u s) ∧ Always I G Q (k s) := Iff.rfl

theorem always_relabel {κ' : Type} {f : κ → κ'} {G : κ' → σ → σ → Prop} {p : Coro κ σ ε α} :
    Always I G Q (p.relabel f) ↔ Always I (fun call => G (f call)) Q p := by
  induction p with
  | ret a => exact Iff.rfl
  | raise e => exact Iff.rfl
  | step call u k ih =>
    refine forall₂_congr fun s _ => and_congr Iff.rfl (ih s)

theorem Always.bind {p : Coro κ σ ε α} {f : α → Coro κ σ ε β}
    (hp : Always I G Q p) (hf : ∀ a, Q a → Always I G Q' (f a)) :
    Always I G Q' (p >>= f) := by
  induction p with
  | ret a => exact hf a hp
  | raise e => trivial
  | step call u k ih => exact fun s hs => ⟨(hp s hs).1, ih s (hp s hs).2⟩

theorem Always.handle {p : Coro κ σ ε α} {h : ε → Coro κ σ ε α}
    (hp : Always I G Q p) (hh : ∀ e, Always I G Q (h e)) :
    Always I G Q (tryCatch p h) := by
  induction p with
  | ret a => exact hp
  | raise e => exact hh e
  | step call u k ih => exact fun s hs => ⟨(hp s hs).1, ih s (hp s hs).2⟩

theorem Always.ofExcept {r : Except ε α} (h : ∀ a, r = .ok a → Q a) :
    Always I G Q (ofExcept r : Coro κ σ ε α) := by
  cases r with
  | ok a => exact h a rfl
  | error e => trivial

theorem Always.act {call : κ} {f : σ → Except ε α × σ}
    (hG : ∀ s, I s → G call s (f s).2) (hQ : ∀ s, I s → ∀ a, (f s).1 = .ok a → Q a) :
    Always I G Q (act call f : Coro κ σ ε α) :=
  fun s hs => ⟨hG s hs, Always.ofExcept fun a ha => hQ s hs a ha⟩

theorem Always.mono {I' : σ → Prop} {G' : κ → σ → σ → Prop} {R : α → Prop}
    {p : Coro κ σ ε α} (hp : Always I G Q p) (hI : ∀ s, I' s → I s)
    (hG : ∀ c s s', I' s → G c s s' → G' c s s') (hQ : ∀ a, Q a → R a) :
    Always I' G' R p := by
  induction p with
  | ret a => exact hQ a hp
  | raise e => trivial
  | step call u k ih =>
    intro s hs
    obtain ⟨hstep, hnext⟩ := hp s (hI s hs)
    exact ⟨hG _ _ _ hs hstep, ih s hnext⟩

theorem Always.and {G' : κ → σ → σ → Prop} {R : α → Prop} {p : Coro κ σ ε α}
    (hp : Always I G Q p) (hq : Always I G' R p) :
    Always I (fun c s s' => G c s s' ∧ G' c s s') (fun a => Q a ∧ R a) p := by
  induction p with
  | ret a => exact ⟨hp, hq⟩
  | raise e => trivial
  | step call u k ih =>
    intro s hs
    obtain ⟨hstep, hnext⟩ := hp s hs
    obtain ⟨hstep', hnext'⟩ := hq s hs
    exact ⟨⟨hstep, hstep'⟩, ih s hnext hnext'⟩

end Rules

def Calls (K : κ → Prop) (p : Coro κ σ ε α) : Prop :=
  Always (fun _ => True) (fun c _ _ => K c) (fun _ => True) p

/-- Every call of the coroutine relates its two states by `R`. -/
def Frames (R : σ → σ → Prop) (p : Coro κ σ ε α) : Prop :=
  Always (fun _ => True) (fun _ => R) (fun _ => True) p

section Frames
variable {R : σ → σ → Prop}

theorem Frames.pure (a : α) : Frames R (pure a : Coro κ σ ε α) := trivial

theorem Frames.throw (e : ε) : Frames R (throw e : Coro κ σ ε α) := trivial

theorem Frames.ofExcept (r : Except ε α) : Frames R (ofExcept r : Coro κ σ ε α) :=
  Always.ofExcept fun _ _ => trivial

theorem Frames.bind {p : Coro κ σ ε α} {f : α → Coro κ σ ε β}
    (hp : Frames R p) (hf : ∀ a, Frames R (f a)) : Frames R (p >>= f) :=
  Always.bind hp fun a _ => hf a

theorem Frames.handle {p : Coro κ σ ε α} {h : ε → Coro κ σ ε α}
    (hp : Frames R p) (hh : ∀ e, Frames R (h e)) : Frames R (tryCatch p h) :=
  Always.handle hp hh

theorem Frames.act {call : κ} {f : σ → Except ε α × σ} (h : ∀ s, R s (f s).2) :
    Frames R (act call f : Coro κ σ ε α) :=
  Always.act (fun s _ => h s) fun _ _ _ _ => trivial

theorem Frames.mono {R' : σ → σ → Prop} {p : Coro κ σ ε α} (hp : Frames R p)
    (h : ∀ s s', R s s' → R' s s') : Frames R' p :=
  Always.mono hp (fun _ => id) (fun _ s s' _ => h s s') fun _ => id

theorem Frames.always {I : σ → Prop} {p : Coro κ σ ε α} (hp : Frames R p) :
    Always I (fun _ => R) (fun _ => True) p :=
  Always.mono hp (fun _ _ => trivial) (fun _ _ _ _ => id) fun _ => id

/-- What every call keeps, a whole run keeps. -/
theorem Frames.run (hrefl : ∀ s, R s s) (htrans : ∀ {a b c}, R a b → R b c → R a c)
    {p : Coro κ σ ε α} (hp : Frames R p) (s : σ) : R s (p.run s).2 := by
  induction p generalizing s with
  | ret a => exact hrefl s
  | raise e => exact hrefl s
  | step call u k ih =>
    obtain ⟨hstep, hnext⟩ := hp s trivial
    exact htrans hstep (ih s hnext (u s))

end Frames

section Calls
variable {K : κ → Prop}

theorem Calls.pure (a : α) : Calls K (pure a : Coro κ σ ε α) := trivial

theorem Calls.throw (e : ε) : Calls K (throw e : Coro κ σ ε α) := trivial

theorem Calls.ofExcept (r : Except ε α) : Calls K (ofExcept r : Coro κ σ ε α) :=
  Always.ofExcept fun _ _ => trivial

theorem Calls.bind {p : Coro κ σ ε α} {f : α → Coro κ σ ε β}
    (hp : Calls K p) (hf : ∀ a, Calls K (f a)) : Calls K (p >>= f) :=
  Always.bind hp fun a _ => hf a

theorem Calls.act {call : κ} {f : σ → Except ε α × σ} (h : K call) :
    Calls K (act call f : Coro κ σ ε α) :=
  Always.act (fun _ _ => h) fun _ _ _ _ => trivial

theorem calls_relabel {κ' : Type} {f : κ → κ'} {K : κ' → Prop} {p : Coro κ σ ε α} :
    Calls K (p.relabel f) ↔ Calls (fun call => K (f call)) p := always_relabel

theorem Calls.mono {K' : κ → Prop} {p : Coro κ σ ε α} (hp : Calls K p)
    (h : ∀ call, K call → K' call) : Calls K' p :=
  Always.mono hp (fun _ => id) (fun call _ _ _ => h call) fun _ => id

theorem Calls.always {I : σ → Prop} {p : Coro κ σ ε α} (hp : Calls K p) :
    Always I (fun c _ _ => K c) (fun _ => True) p :=
  Always.mono hp (fun _ _ => trivial) (fun _ _ _ _ => id) fun _ => id

end Calls

-- Unfolding would run the coroutine; the rules above follow its text instead.
attribute [irreducible] Always Frames Calls

end Coro
end AoMarket.Coroutine
