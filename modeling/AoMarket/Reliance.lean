import AoMarket.Interleaving

/-!
Rely and guarantee for coroutines. `Assures R G Q E p s` follows `p` from the state `s`
it was left in: before its next call the others may have moved the state along `R`, the
call itself moves it along `G`, and what is returned or raised satisfies `Q` or `E` in
the state of that moment. Coroutines each of whose guarantees the others rely on can be
put in one pool, and every schedule of the pool bears out what each of them assures.
-/

namespace AoMarket.Reliance

open Coroutine Interleaving

variable {κ σ ε α β : Type}

def Assures (R : σ → σ → Prop) (G : κ → σ → σ → Prop) (Q : α → σ → Prop) (E : ε → σ → Prop) :
    Coro κ σ ε α → σ → Prop
  | .ret a, s => Q a s
  | .raise e, s => E e s
  | .step call update next, s =>
    ∀ t, R s t → G call t (update t) ∧ Assures R G Q E (next t) (update t)

section Rules
variable {R : σ → σ → Prop} {G : κ → σ → σ → Prop} {Q : α → σ → Prop} {E : ε → σ → Prop} {s : σ}
  {P : σ → Prop}

theorem Assures.pure {a : α} (h : Q a s) : Assures R G Q E (pure a : Coro κ σ ε α) s := h

theorem Assures.throw {e : ε} (h : E e s) : Assures R G Q E (throw e : Coro κ σ ε α) s := h

theorem Assures.bind {Q' : β → σ → Prop} {p : Coro κ σ ε α} {f : α → Coro κ σ ε β}
    (hp : Assures R G Q E p s) (hf : ∀ a t, Q a t → Assures R G Q' E (f a) t) :
    Assures R G Q' E (p >>= f) s := by
  induction p generalizing s with
  | ret a => exact hf a s hp
  | raise e => exact hp
  | step call u k ih =>
    intro t ht
    obtain ⟨hcall, hnext⟩ := hp t ht
    exact ⟨hcall, ih t hnext⟩

theorem Assures.handle {E' : ε → σ → Prop} {p : Coro κ σ ε α} {h : ε → Coro κ σ ε α}
    (hp : Assures R G Q E' p s) (hh : ∀ e t, E' e t → Assures R G Q E (h e) t) :
    Assures R G Q E (tryCatch p h) s := by
  induction p generalizing s with
  | ret a => exact hp
  | raise e => exact hh e s hp
  | step call u k ih =>
    intro t ht
    obtain ⟨hcall, hnext⟩ := hp t ht
    exact ⟨hcall, ih t hnext⟩

theorem Assures.act {call : κ} {f : σ → Except ε α × σ} (hG : ∀ t, R s t → G call t (f t).2)
    (hQ : ∀ t a, R s t → (f t).1 = .ok a → Q a (f t).2)
    (hE : ∀ t e, R s t → (f t).1 = .error e → E e (f t).2) :
    Assures R G Q E (Coro.act call f) s := by
  intro t ht
  refine ⟨hG t ht, ?_⟩
  show Assures R G Q E (Coro.ofExcept (f t).1) (f t).2
  cases hres : (f t).1 with
  | ok a => exact hQ t a ht hres
  | error e => exact hE t e ht hres

theorem Assures.mono {G' : κ → σ → σ → Prop} {Q' : α → σ → Prop} {E' : ε → σ → Prop}
    {p : Coro κ σ ε α} (hp : Assures R G Q E p s) (hG : ∀ c t t', G c t t' → G' c t t')
    (hQ : ∀ a t, Q a t → Q' a t) (hE : ∀ e t, E e t → E' e t) : Assures R G' Q' E' p s := by
  induction p generalizing s with
  | ret a => exact hQ a s hp
  | raise e => exact hE e s hp
  | step call u k ih =>
    intro t ht
    obtain ⟨hcall, hnext⟩ := hp t ht
    exact ⟨hG _ _ _ hcall, ih t hnext⟩

theorem Assures.relabel {κ' : Type} {f : κ → κ'} {G' : κ' → σ → σ → Prop} {p : Coro κ σ ε α}
    (hp : Assures R (fun c => G' (f c)) Q E p s) : Assures R G' Q E (p.relabel f) s := by
  induction p generalizing s with
  | ret a => exact hp
  | raise e => exact hp
  | step call u k ih =>
    intro t ht
    obtain ⟨hcall, hnext⟩ := hp t ht
    exact ⟨hcall, ih t hnext⟩

/-- A coroutine whose results alone matter, whatever the others do. -/
theorem assures_of_always {S : σ → σ → Prop} {Q : α → Prop} {p : Coro κ σ ε α}
    (hp : p.Always (fun _ => True) (fun _ => S) Q) (hS : ∀ c t t', S t t' → G c t t')
    (hstable : ∀ t t', R t t' ∨ S t t' → P t → P t') (hs : P s) :
    Assures R G (fun a t => Q a ∧ P t) (fun _ t => P t) p s := by
  induction p generalizing s with
  | ret a => exact ⟨Coro.always_ret.mp hp, hs⟩
  | raise e => exact hs
  | step call u k ih =>
    intro t ht
    obtain ⟨hstep, hnext⟩ := Coro.always_step.mp hp t trivial
    have hnow := hstable s t (Or.inl ht) hs
    exact ⟨hS call t _ hstep, ih t hnext (hstable t _ (Or.inr hstep) hnow)⟩

/-- A coroutine over a part of the state, run on the whole. -/
def onPart {κ' τ : Type} (f : κ → κ') (get : τ → σ) (set : σ → τ → τ) :
    Coro κ σ ε α → Coro κ' τ ε α
  | .ret a => .ret a
  | .raise e => .raise e
  | .step call update next =>
    .step (f call) (fun t => set (update (get t)) t) fun t => onPart f get set (next (get t))

theorem onPart_bind {κ' τ : Type} (f : κ → κ') (get : τ → σ) (set : σ → τ → τ)
    (p : Coro κ σ ε α) (g : α → Coro κ σ ε β) :
    onPart f get set (p >>= g) = (onPart f get set p >>= fun a => onPart f get set (g a)) := by
  induction p with
  | ret a => rfl
  | raise e => rfl
  | step call u k ih => exact congrArg (Coro.step (f call) _) (funext fun t => ih (get t))

/-- The same coroutine with its exceptions under other names. -/
def withErrors {ε' : Type} (f : ε → ε') : Coro κ σ ε α → Coro κ σ ε' α
  | .ret a => .ret a
  | .raise e => .raise (f e)
  | .step call update next => .step call update fun s => withErrors f (next s)

end Rules

section Pools
variable {ι : Type} {R : σ → σ → Prop} {G : ι → κ → σ → σ → Prop}
  {Q : ι → α → σ → Prop} {E : ι → ε → σ → Prop}

/-- Each coroutine of the pool assures what it did when it was last given a turn. -/
def Together (R : σ → σ → Prop) (G : ι → κ → σ → σ → Prop) (Q : ι → α → σ → Prop)
    (E : ι → ε → σ → Prop) (P : Pool ι κ σ ε α) : Prop :=
  ∀ i, ∃ s, R s P.shared ∧ Assures R (G i) (Q i) (E i) (P.thread i) s

/-- What makes a relation fit to be relied on by all. -/
structure Shared (R : σ → σ → Prop) (G : ι → κ → σ → σ → Prop) : Prop where
  refl : ∀ s, R s s
  trans : ∀ a b c, R a b → R b c → R a c
  guaranteed : ∀ i c s t, G i c s t → R s t

theorem together_start (hR : ∀ s, R s s) {s : σ} {progs : ι → Coro κ σ ε α}
    (h : ∀ i, Assures R (G i) (Q i) (E i) (progs i) s) :
    Together R G Q E (Pool.start s progs) :=
  fun i => ⟨s, hR s, h i⟩

/-- What one turn of a coroutine does is what it guarantees. -/
theorem Together.turn_guaranteed {P : Pool ι κ σ ε α} (h : Together R G Q E P) {i : ι} {call : κ}
    {u : σ → σ} {k : σ → Coro κ σ ε α} (hi : P.thread i = .step call u k) :
    G i call P.shared (u P.shared) ∧
      Assures R (G i) (Q i) (E i) (k P.shared) (u P.shared) := by
  obtain ⟨s, hs, hassures⟩ := h i
  rw [hi] at hassures
  exact hassures P.shared hs

variable [DecidableEq ι]

/-- One turn: whoever has it keeps to what it assures, and so the others can rely on it. -/
theorem Together.turn (hshared : Shared R G) {P : Pool ι κ σ ε α} (h : Together R G Q E P)
    (i : ι) : Together R G Q E (P.turn i) ∧ R P.shared (P.turn i).shared := by
  cases hi : P.thread i with
  | ret a | raise e =>
    rw [Pool.turn_of_finished (by rw [hi]; rfl)]
    exact ⟨h, hshared.refl _⟩
  | step call u k =>
    obtain ⟨hG, hnext⟩ := h.turn_guaranteed hi
    have hmove := hshared.guaranteed i call _ _ hG
    rw [Pool.turn_of_step hi]
    refine ⟨fun j => ?_, hmove⟩
    by_cases hji : j = i
    · subst hji
      exact ⟨u P.shared, hshared.refl _, by simpa using hnext⟩
    · obtain ⟨s, hs, hassures⟩ := h j
      refine ⟨s, hshared.trans _ _ _ hs hmove, ?_⟩
      simpa [Function.update_of_ne hji] using hassures

/-- The same of a schedule, by induction over it. -/
theorem Together.exec (hshared : Shared R G) {P : Pool ι κ σ ε α} (h : Together R G Q E P)
    (schedule : List ι) :
    Together R G Q E (P.exec schedule) ∧ R P.shared (P.exec schedule).shared := by
  induction schedule generalizing P with
  | nil => exact ⟨h, hshared.refl _⟩
  | cons i rest ih =>
    obtain ⟨hturn, hmove⟩ := h.turn hshared i
    obtain ⟨hrest, hmoves⟩ := ih hturn
    exact ⟨hrest, hshared.trans _ _ _ hmove hmoves⟩

/-- What a coroutine returns in a turn satisfies its postcondition at that moment. -/
theorem Together.returned (hshared : Shared R G) {P : Pool ι κ σ ε α} (h : Together R G Q E P)
    {schedule : List ι} {i : ι} {a : α}
    (hwaiting : ¬ ((P.exec schedule).thread i).Finished)
    (hret : ((P.exec schedule).turn i).thread i = .ret a) :
    Q i a ((P.exec schedule).turn i).shared := by
  obtain ⟨hnow, _⟩ := h.exec hshared schedule
  cases hi : (P.exec schedule).thread i with
  | ret b | raise e =>
    rw [hi] at hwaiting
    exact absurd rfl hwaiting
  | step call u k =>
    obtain ⟨_, hnext⟩ := hnow.turn_guaranteed hi
    rw [Pool.turn_of_step hi] at hret ⊢
    have hk : k (P.exec schedule).shared = .ret a := by simpa using hret
    rw [hk] at hnext
    exact hnext

end Pools

/-! Coroutines of which nothing but their calls is known -/

section Frames
variable {ι : Type} [DecidableEq ι] {S : σ → σ → Prop} {progs : ι → Coro κ σ ε α} {s : σ}

theorem frames_next {call : κ} {u : σ → σ} {k : σ → Coro κ σ ε α}
    (h : (Coro.step call u k).Frames S) (t : σ) : S t (u t) ∧ (k t).Frames S := by
  unfold Coro.Frames at h ⊢
  exact Coro.always_step.mp h t trivial

/-- What every call of every coroutine does, and composes, a schedule does. -/
theorem exec_frames (hrefl : ∀ s, S s s) (htrans : ∀ {a b c}, S a b → S b c → S a c)
    (h : ∀ i, (progs i).Frames S) (schedule : List ι) :
    S s ((Pool.start s progs).exec schedule).shared := by
  suffices hrun : ∀ P : Pool ι κ σ ε α, (∀ i, (P.thread i).Frames S) →
      S P.shared (P.exec schedule).shared from
    hrun (Pool.start s progs) h
  induction schedule with
  | nil => exact fun P _ => hrefl P.shared
  | cons i rest ih =>
    intro P hP
    cases hi : P.thread i with
    | ret a | raise e =>
      have hsame : P.turn i = P := Pool.turn_of_finished (by rw [hi]; rfl)
      have hrest := ih (P.turn i) (by rwa [hsame])
      rw [hsame] at hrest
      show S P.shared ((P.turn i).exec rest).shared
      rwa [hsame]
    | step call u k =>
      have hframes := hP i
      rw [hi] at hframes
      obtain ⟨hstep, hnext⟩ := frames_next hframes P.shared
      have hrest := ih (P.turn i) (by
        intro j
        rw [Pool.turn_of_step hi]
        by_cases hji : j = i
        · subst hji
          simpa using hnext
        · simpa [Function.update_of_ne hji] using hP j)
      have hshared : (P.turn i).shared = u P.shared := by rw [Pool.turn_of_step hi]
      rw [hshared] at hrest
      exact htrans hstep hrest

/-- One coroutine among others that stay within what it relies on. -/
theorem exec_among {R : σ → σ → Prop} {G : κ → σ → σ → Prop} {Q : α → σ → Prop}
    {E : ε → σ → Prop} {J : σ → Prop} {i₀ : ι} (hrefl : ∀ s, R s s)
    (htrans : ∀ a b c, R a b → R b c → R a c) (hone : Assures R G Q E (progs i₀) s)
    (hothers : ∀ i, i ≠ i₀ → (progs i).Frames R) (hcall : ∀ c a b, J a → G c a b → J b)
    (hmove : ∀ a b, J a → R a b → J b) (hs : J s) (schedule : List ι) :
    J ((Pool.start s progs).exec schedule).shared := by
  suffices hrun : ∀ P : Pool ι κ σ ε α, (∃ t, R t P.shared ∧ Assures R G Q E (P.thread i₀) t) →
      (∀ i, i ≠ i₀ → (P.thread i).Frames R) → J P.shared → J (P.exec schedule).shared from
    hrun (Pool.start s progs) ⟨s, hrefl s, hone⟩ hothers hs
  induction schedule with
  | nil => exact fun P _ _ hJ => hJ
  | cons i rest ih =>
    intro P hP hframes hJ
    obtain ⟨t, ht, hassures⟩ := hP
    cases hi : P.thread i with
    | ret a | raise e =>
      have hsame : P.turn i = P := Pool.turn_of_finished (by rw [hi]; rfl)
      have hrest := ih (P.turn i)
      rw [hsame] at hrest
      show J ((P.turn i).exec rest).shared
      rw [hsame]
      exact hrest ⟨t, ht, hassures⟩ hframes hJ
    | step call u k =>
      refine ih (P.turn i) ?_ ?_ ?_
      · rw [Pool.turn_of_step hi]
        by_cases hone : i₀ = i
        · subst hone
          rw [hi] at hassures
          exact ⟨u P.shared, hrefl _, by simpa using (hassures P.shared ht).2⟩
        · have hother := hframes i (Ne.symm hone)
          rw [hi] at hother
          refine ⟨t, htrans _ _ _ ht (frames_next hother P.shared).1, ?_⟩
          simpa [Function.update_of_ne hone] using hassures
      · intro j hj
        rw [Pool.turn_of_step hi]
        by_cases hji : j = i
        · subst hji
          have hother := hframes j hj
          rw [hi] at hother
          simpa using (frames_next hother P.shared).2
        · simpa [Function.update_of_ne hji] using hframes j hj
      · rw [Pool.turn_of_step hi]
        by_cases hone : i = i₀
        · subst hone
          rw [hi] at hassures
          exact hcall call _ _ hJ (hassures P.shared ht).1
        · have hother := hframes i hone
          rw [hi] at hother
          exact hmove _ _ hJ (frames_next hother P.shared).1

end Frames

/-! An invariant and an order on the states -/

section Invariant
variable {I : σ → Prop} {L : σ → σ → Prop}

/-- Where the invariant held, it holds, and the state has only moved on. -/
def Keeps (I : σ → Prop) (L : σ → σ → Prop) (s t : σ) : Prop := I s → I t ∧ L s t

theorem Keeps.refl (hL : ∀ s, L s s) (s : σ) : Keeps I L s s := fun h => ⟨h, hL s⟩

theorem Keeps.trans (hL : ∀ a b c, L a b → L b c → L a c) {s t u : σ} (h : Keeps I L s t)
    (h' : Keeps I L t u) : Keeps I L s u := by
  intro hs
  obtain ⟨ht, hst⟩ := h hs
  obtain ⟨hu, htu⟩ := h' ht
  exact ⟨hu, hL s t u hst htu⟩

/-- The coroutine keeps the invariant and relies on it; `F` and `E` are its outcomes. -/
def Does (I : σ → Prop) (L : σ → σ → Prop) (p : Coro κ σ ε α) (s : σ) (F : α → σ → Prop)
    (E : ε → σ → Prop) : Prop :=
  Assures (Keeps I L) (fun _ => Keeps I L) (fun a t => I t ∧ F a t) (fun e t => I t ∧ E e t) p s

variable {s : σ} {F : α → σ → Prop} {E : ε → σ → Prop}

theorem Does.pure {a : α} (hs : I s) (h : F a s) : Does I L (pure a : Coro κ σ ε α) s F E :=
  Assures.pure ⟨hs, h⟩

theorem Does.throw {e : ε} (hs : I s) (h : E e s) :
    Does I L (throw e : Coro κ σ ε α) s F E :=
  Assures.throw ⟨hs, h⟩

theorem Does.bind {F' : β → σ → Prop} {p : Coro κ σ ε α} {f : α → Coro κ σ ε β}
    (hp : Does I L p s F E) (hf : ∀ a t, I t → F a t → Does I L (f a) t F' E) :
    Does I L (p >>= f) s F' E :=
  Assures.bind hp fun a t h => hf a t h.1 h.2

theorem Does.handle {E' : ε → σ → Prop} {p : Coro κ σ ε α} {h : ε → Coro κ σ ε α}
    (hp : Does I L p s F E') (hh : ∀ e t, I t → E' e t → Does I L (h e) t F E) :
    Does I L (tryCatch p h) s F E :=
  Assures.handle hp fun e t h => hh e t h.1 h.2

theorem Does.mono {F' : α → σ → Prop} {E' : ε → σ → Prop} {p : Coro κ σ ε α}
    (hp : Does I L p s F E) (hF : ∀ a t, F a t → F' a t) (hE : ∀ e t, E e t → E' e t) :
    Does I L p s F' E' :=
  Assures.mono hp (fun _ _ _ h => h) (fun a t h => ⟨h.1, hF a t h.2⟩) fun e t h =>
    ⟨h.1, hE e t h.2⟩

theorem Does.act (hs : I s) {call : κ} {f : σ → Except ε α × σ}
    (hf : ∀ t, I t → L s t → Keeps I L t (f t).2 ∧ (∀ a, (f t).1 = .ok a → F a (f t).2) ∧
      ∀ e, (f t).1 = .error e → E e (f t).2) :
    Does I L (Coro.act call f) s F E := by
  refine Assures.act (fun t ht => ?_) (fun t a ht hres => ?_) (fun t e ht hres => ?_)
  · obtain ⟨hI, hmoved⟩ := ht hs
    exact (hf t hI hmoved).1
  · obtain ⟨hI, hmoved⟩ := ht hs
    obtain ⟨hkeeps, hF, _⟩ := hf t hI hmoved
    exact ⟨(hkeeps hI).1, hF a hres⟩
  · obtain ⟨hI, hmoved⟩ := ht hs
    obtain ⟨hkeeps, _, hE⟩ := hf t hI hmoved
    exact ⟨(hkeeps hI).1, hE e hres⟩

/-- A coroutine ends in a state that has only moved on from where it began. -/
theorem Does.since {p : Coro κ σ ε α} (hrefl : ∀ s, L s s) (htrans : ∀ a b c, L a b → L b c → L a c)
    (hs : I s) (hp : Does I L p s F E) :
    Does I L p s (fun a t => L s t ∧ F a t) fun e t => L s t ∧ E e t := by
  suffices hfrom : ∀ s', I s' → L s s' → Does I L p s' F E →
      Does I L p s' (fun a t => L s t ∧ F a t) fun e t => L s t ∧ E e t from
    hfrom s hs (hrefl s) hp
  clear hp
  induction p with
  | ret a => exact fun s' _ hmoved h => ⟨h.1, hmoved, h.2⟩
  | raise e => exact fun s' _ hmoved h => ⟨h.1, hmoved, h.2⟩
  | step call u k ih =>
    intro s' hs' hmoved h v hv
    obtain ⟨hI, hlater⟩ := hv hs'
    obtain ⟨hkeeps, hnext⟩ := h v hv
    obtain ⟨hI', hlater'⟩ := hkeeps hI
    exact ⟨hkeeps, ih v _ hI' (htrans _ _ _ hmoved (htrans _ _ _ hlater hlater')) hnext⟩

section Pools
variable {ι : Type} {progs : ι → Coro κ σ ε α} {F : ι → α → σ → Prop} {E : ι → ε → σ → Prop}

theorem keeps_shared (hrefl : ∀ s, L s s) (htrans : ∀ a b c, L a b → L b c → L a c) :
    Shared (Keeps I L) (fun (_ : ι) (_ : κ) => Keeps I L) where
  refl := Keeps.refl hrefl
  trans := fun _ _ _ h h' => h.trans htrans h'
  guaranteed := fun _ _ _ _ h => h

theorem together_of_does (hrefl : ∀ s, L s s) (h : ∀ i, Does I L (progs i) s (F i) (E i)) :
    Together (Keeps I L) (fun _ _ => Keeps I L) (fun i a t => I t ∧ F i a t)
      (fun i e t => I t ∧ E i e t) (Pool.start s progs) :=
  together_start (Keeps.refl hrefl) h

variable [DecidableEq ι]

/-- Coroutines that all keep the invariant keep it in every schedule. -/
theorem exec_keeps (hrefl : ∀ s, L s s) (htrans : ∀ a b c, L a b → L b c → L a c) (hs : I s)
    (h : ∀ i, Does I L (progs i) s (F i) (E i)) (schedule : List ι) :
    I ((Pool.start s progs).exec schedule).shared ∧
      L s ((Pool.start s progs).exec schedule).shared :=
  ((together_of_does hrefl h).exec (keeps_shared hrefl htrans) schedule).2 hs

end Pools

end Invariant

end AoMarket.Reliance
