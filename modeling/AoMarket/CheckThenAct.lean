import AoMarket.Interleaving
import Mathlib.Data.Finset.Card
import Mathlib.Tactic.Linarith

/-!
Coroutines that check a size against a limit and act on the answer in a later
call. Each alone keeps the size within the limit; together they do when every
check that passes leaves room for the ones that passed before it and have yet to
act.
-/

namespace AoMarket.CheckThenAct

open Coroutine Interleaving

variable {ι κ σ ε α β : Type} [DecidableEq ι] [DecidableEq κ]

/-! What a coroutine may still do -/

section Programs
variable (I : σ → Prop) (size : σ → ℤ) (limit : ℤ) (check act : κ)

/-- No call makes the size grow. -/
def Steady (p : Coro κ σ ε α) : Prop :=
  Coro.Always I (fun _ s s' => I s' ∧ size s' ≤ size s) (fun _ => True) p

/-- The size grows in one call to `act` at most, by one. -/
def ActsOnce : Coro κ σ ε α → Prop
  | .ret _ | .raise _ => True
  | .step call update next => ∀ s, I s → I (update s) ∧
      if call = act then size (update s) ≤ size s + 1 ∧ Steady I size (next s)
      else size (update s) ≤ size s ∧ ActsOnce (next s)

def Checks : Coro κ σ ε α → Prop
  | .ret _ | .raise _ => True
  | .step call update next => ∀ s, I s → I (update s) ∧ call ≠ act ∧ size (update s) ≤ size s ∧
      if call = check then
        if size s < limit then ActsOnce I size act (next s) else (next s).Finished
      else Checks (next s)

end Programs

section Rules
variable {I : σ → Prop} {size : σ → ℤ} {limit : ℤ} {check act : κ}

/-- Calls other than `act` may come first. -/
theorem ActsOnce.bind {p : Coro κ σ ε α} {f : α → Coro κ σ ε β}
    (hp : Coro.Always I (fun c s s' => c ≠ act ∧ I s' ∧ size s' ≤ size s) (fun _ => True) p)
    (hf : ∀ a, ActsOnce I size act (f a)) : ActsOnce I size act (p >>= f) := by
  induction p with
  | ret a => exact hf a
  | raise e => trivial
  | step call u k ih =>
    rw [Coro.always_step] at hp
    intro s hs
    obtain ⟨⟨hne, hinv, hle⟩, hnext⟩ := hp s hs
    rw [if_neg hne]
    exact ⟨hinv, hle, ih s hnext⟩

/-- A coroutine that acts first and is steady afterwards acts once. -/
theorem actsOnce_act {p : Coro κ σ ε α} {g : σ → Except ε α × σ} {f : α → Coro κ σ ε β}
    (hp : p = Coro.act act g)
    (hg : ∀ s, I s → I (p.run s).2 ∧ size (p.run s).2 ≤ size s + 1)
    (hf : ∀ a, Steady I size (f a)) : ActsOnce I size act (p >>= f) := by
  subst hp
  intro s hs
  have hstep := hg s hs
  rw [Coro.run_act] at hstep
  rw [if_pos rfl]
  refine ⟨hstep.1, hstep.2, ?_⟩
  exact Coro.Always.bind (Coro.Always.ofExcept fun _ _ => trivial) fun a _ => hf a

/-- Calls other than `check` and `act` may come first, if the rest is right for the values
they return. -/
theorem Checks.bind {p : Coro κ σ ε α} {f : α → Coro κ σ ε β} {Q : α → Prop}
    (hp : Coro.Always I (fun c s s' => c ≠ act ∧ c ≠ check ∧ I s' ∧ size s' ≤ size s) Q p)
    (hf : ∀ a, Q a → Checks I size limit check act (f a)) :
    Checks I size limit check act (p >>= f) := by
  induction p with
  | ret a => exact hf a (Coro.always_ret.mp hp)
  | raise e => trivial
  | step call u k ih =>
    rw [Coro.always_step] at hp
    intro s hs
    obtain ⟨⟨hact, hcheck, hinv, hle⟩, hnext⟩ := hp s hs
    rw [if_neg hcheck]
    exact ⟨hinv, hact, hle, ih s hnext⟩

/-- A coroutine that begins with the check, may act when it finds room and has finished when it
does not, checks before it acts. -/
theorem checks_check {p : Coro κ σ ε α} {g : σ → Except ε α × σ} {f : α → Coro κ σ ε β}
    (hp : p = Coro.act check g) (hne : check ≠ act)
    (hg : ∀ s, I s → I (p.run s).2 ∧ size (p.run s).2 ≤ size s)
    (hpass : ∀ s a, I s → (p.run s).1 = .ok a → size s < limit → ActsOnce I size act (f a))
    (hfail : ∀ s a, I s → (p.run s).1 = .ok a → limit ≤ size s → (f a).Finished) :
    Checks I size limit check act (p >>= f) := by
  subst hp
  intro s hs
  have hstep := hg s hs
  rw [Coro.run_act] at hstep
  rw [if_pos rfl]
  refine ⟨hstep.1, hne, hstep.2, ?_⟩
  show if size s < limit then ActsOnce I size act (Coro.ofExcept (g s).1 >>= f)
    else (Coro.ofExcept (g s).1 >>= f).Finished
  cases hres : (g s).1 with
  | error e =>
    split
    · trivial
    · rfl
  | ok a =>
    split
    · next hlt => exact hpass s a hs (by rw [Coro.run_act, hres]) hlt
    · next hle => exact hfail s a hs (by rw [Coro.run_act, hres]) (not_lt.mp hle)

end Rules

/-! Several at once -/

section Pools
variable (I : σ → Prop) (size : σ → ℤ) (limit : ℤ) (check act : κ) (mine : Finset ι)

/-- Past its check and still to act, after the calls it has made. -/
def Between (calls : List κ) (p : Coro κ σ ε α) : Prop :=
  check ∈ calls ∧ act ∉ calls ∧ ¬ p.Finished

instance (p : Coro κ σ ε α) : Decidable p.Finished :=
  inferInstanceAs (Decidable (p.waiting = none))

instance (calls : List κ) (p : Coro κ σ ε α) : Decidable (Between check act calls p) :=
  inferInstanceAs (Decidable (_ ∧ _ ∧ ¬ _))

def between (P : Pool ι κ σ ε α) : Finset ι :=
  mine.filter fun i => Between check act (P.calls i) (P.thread i)

/-- A coroutine about to check finds no room, or room for itself and all those between
their check and their act. -/
def RoomLeft (P : Pool ι κ σ ε α) (i : ι) : Prop :=
  i ∈ mine → (P.thread i).waiting = some check →
    limit ≤ size P.shared ∨ size P.shared + (between check act mine P).card < limit

instance (P : Pool ι κ σ ε α) (i : ι) : Decidable (RoomLeft size limit check act mine P i) :=
  inferInstanceAs (Decidable (_ → _ → _ ∨ _))

/-- What a coroutine that has made the calls may still do. -/
def Phase (calls : List κ) (p : Coro κ σ ε α) : Prop :=
  if act ∈ calls then Steady I size p
  else if check ∈ calls then ActsOnce I size act p
  else Checks I size limit check act p

/-- The invariant of a pool in which the coroutines of `mine` check and act. -/
structure Bounded (bound : ℤ) (P : Pool ι κ σ ε α) : Prop where
  inv : I P.shared
  others : ∀ i, i ∉ mine → Steady I size (P.thread i)
  phase : ∀ i ∈ mine, Phase I size limit check act (P.calls i) (P.thread i)
  bound : size P.shared + (between check act mine P).card ≤ bound

end Pools

section Turns
variable {I : σ → Prop} {size : σ → ℤ} {limit bound : ℤ} {check act : κ} {mine : Finset ι}

/-- One for a coroutine between its check and its act, and else nothing. -/
def share (check act : κ) (calls : List κ) (p : Coro κ σ ε α) : ℤ :=
  if Between check act calls p then 1 else 0

theorem share_nonneg (calls : List κ) (p : Coro κ σ ε α) : 0 ≤ share check act calls p := by
  unfold share
  split <;> omega

theorem share_le_one (calls : List κ) (p : Coro κ σ ε α) : share check act calls p ≤ 1 := by
  unfold share
  split <;> omega

/-- One call: the size grows by what the coroutine gives up of its share, unless it is a
check that passes. -/
theorem phase_step {calls : List κ} {call : κ} {u : σ → σ} {k : σ → Coro κ σ ε α} {s : σ}
    (hs : I s) (h : Phase I size limit check act calls (.step call u k)) :
    I (u s) ∧ Phase I size limit check act (call :: calls) (k s) ∧
      (size (u s) + share check act (call :: calls) (k s) ≤
          size s + share check act calls (.step call u k) ∨
        call = check ∧ size s < limit ∧ share check act calls (.step call u k) = 0 ∧
          size (u s) + share check act (call :: calls) (k s) ≤ size s + 1) := by
  have hgoing : ¬ (Coro.step call u k : Coro κ σ ε α).Finished := by
    simp [Coro.Finished, Coro.waiting]
  have hle : share check act (call :: calls) (k s) ≤ 1 := share_le_one _ _
  unfold Phase at h ⊢
  by_cases hact : act ∈ calls
  · -- it has acted, and nothing grows any more
    rw [if_pos hact] at h
    rw [if_pos (List.mem_cons_of_mem _ hact)]
    unfold Steady at h
    rw [Coro.always_step] at h
    obtain ⟨⟨hinv, hsize⟩, hnext⟩ := h s hs
    have hzero : share check act (call :: calls) (k s) = 0 :=
      if_neg fun hb => hb.2.1 (List.mem_cons_of_mem _ hact)
    have hold : 0 ≤ share check act calls (.step call u k) := share_nonneg _ _
    exact ⟨hinv, hnext, Or.inl (by omega)⟩
  rw [if_neg hact] at h
  by_cases hcheck : check ∈ calls
  · -- it is between its check and its act, and gives its share up when it acts
    rw [if_pos hcheck] at h
    have hone : share check act calls (Coro.step call u k) = 1 := if_pos ⟨hcheck, hact, hgoing⟩
    obtain ⟨hinv, hstep⟩ := h s hs
    by_cases hcall : call = act
    · rw [if_pos hcall] at hstep
      have hmem : act ∈ call :: calls := by simp [hcall]
      rw [if_pos hmem]
      have hzero : share check act (call :: calls) (k s) = 0 := if_neg fun hb => hb.2.1 hmem
      exact ⟨hinv, hstep.2, Or.inl (by omega)⟩
    · rw [if_neg hcall] at hstep
      have hmem : act ∉ call :: calls := by simp [Ne.symm hcall, hact]
      rw [if_neg hmem, if_pos (List.mem_cons_of_mem _ hcheck)]
      exact ⟨hinv, hstep.2, Or.inl (by omega)⟩
  · -- it has not checked
    rw [if_neg hcheck] at h
    have hzero : share check act calls (Coro.step call u k) = 0 := if_neg fun hb => hcheck hb.1
    obtain ⟨hinv, hcall, hsize, hnext⟩ := h s hs
    have hmem : act ∉ call :: calls := by simp [Ne.symm hcall, hact]
    rw [if_neg hmem]
    by_cases hnow : call = check
    · rw [if_pos hnow] at hnext
      rw [if_pos (by simp [hnow])]
      by_cases hroom : size s < limit
      · rw [if_pos hroom] at hnext
        exact ⟨hinv, hnext, Or.inr ⟨hnow, hroom, hzero, by omega⟩⟩
      · rw [if_neg hroom] at hnext
        have hdone : share check act (call :: calls) (k s) = 0 := if_neg fun hb => hb.2.2 hnext
        refine ⟨hinv, ?_, Or.inl (by omega)⟩
        cases hk : k s with
        | ret a => trivial
        | raise e => trivial
        | step call' u' k' =>
          rw [hk] at hnext
          simp [Coro.Finished, Coro.waiting] at hnext
    · rw [if_neg hnow] at hnext
      have hlater : check ∉ call :: calls := by simp [Ne.symm hnow, hcheck]
      have hstill : share check act (call :: calls) (k s) = 0 := if_neg fun hb => hlater hb.1
      rw [if_neg hlater]
      exact ⟨hinv, hnext, Or.inl (by omega)⟩

/-- What a turn does to the number of those between check and act. -/
theorem card_between_turn {P Q : Pool ι κ σ ε α} {i : ι}
    (hcalls : ∀ j, j ≠ i → Q.calls j = P.calls j) (hthread : ∀ j, j ≠ i → Q.thread j = P.thread j)
    (hmine : i ∈ mine) :
    ((between check act mine Q).card : ℤ) + share check act (P.calls i) (P.thread i) =
      (between check act mine P).card + share check act (Q.calls i) (Q.thread i) := by
  have herase : (between check act mine Q).erase i = (between check act mine P).erase i := by
    ext j
    simp only [between, Finset.mem_erase, Finset.mem_filter]
    constructor
    · rintro ⟨hne, hmem, hb⟩
      rw [hcalls j hne, hthread j hne] at hb
      exact ⟨hne, hmem, hb⟩
    · rintro ⟨hne, hmem, hb⟩
      rw [← hcalls j hne, ← hthread j hne] at hb
      exact ⟨hne, hmem, hb⟩
  have hcard : ∀ R : Pool ι κ σ ε α, ((between check act mine R).card : ℤ) =
      ((between check act mine R).erase i).card + share check act (R.calls i) (R.thread i) := by
    intro R
    unfold share
    by_cases hb : Between check act (R.calls i) (R.thread i)
    · have hmem : i ∈ between check act mine R := Finset.mem_filter.mpr ⟨hmine, hb⟩
      rw [if_pos hb, ← Finset.card_erase_add_one hmem]
      push_cast
      rfl
    · have hmem : i ∉ between check act mine R := fun h => hb (Finset.mem_filter.mp h).2
      rw [if_neg hb, Finset.erase_eq_of_notMem hmem]
      simp
  have hP := hcard P
  have hQ := hcard Q
  rw [herase] at hQ
  omega

/-- A turn keeps the invariant if a coroutine that checks finds no room, or room for all. -/
theorem turn_bounded (hlimit : limit ≤ bound) (P : Pool ι κ σ ε α) (i : ι)
    (hroom : RoomLeft size limit check act mine P i)
    (h : Bounded I size limit check act mine bound P) :
    Bounded I size limit check act mine bound (P.turn i) := by
  cases hthread : P.thread i with
  | ret a => rwa [Pool.turn_of_finished (by rw [hthread]; rfl)]
  | raise e => rwa [Pool.turn_of_finished (by rw [hthread]; rfl)]
  | step call u k =>
    have hbound := h.bound
    rw [Pool.turn_of_step hthread]
    by_cases hmine : i ∈ mine
    · have hphase := h.phase i hmine
      rw [hthread] at hphase
      obtain ⟨hinv, hnext, hsize⟩ := phase_step h.inv hphase
      refine ⟨hinv, ?_, ?_, ?_⟩
      · intro j hj
        have hne : j ≠ i := fun heq => hj (heq ▸ hmine)
        simpa [Function.update_of_ne hne] using h.others j hj
      · intro j hj
        by_cases hne : j = i
        · subst hne
          simpa using hnext
        · simpa [Function.update_of_ne hne] using h.phase j hj
      · have hcard := @card_between_turn _ _ _ _ _ _ _ check act mine P
          ⟨u P.shared, Function.update P.thread i (k P.shared),
            Function.update P.calls i (call :: P.calls i)⟩ i
          (fun j hne => Function.update_of_ne hne _ _) (fun j hne => Function.update_of_ne hne _ _)
          hmine
        simp only [Function.update_self, hthread] at hcard
        dsimp only
        rcases hsize with hkept | ⟨hcheck, hlt, hzero, hgrown⟩
        · omega
        · have hwaiting : (P.thread i).waiting = some check := by
            rw [hthread, ← hcheck]
            rfl
          rcases hroom hmine hwaiting with hfull | hfits
          · omega
          · omega
    · have hsteady := h.others i hmine
      rw [hthread] at hsteady
      unfold Steady at hsteady
      rw [Coro.always_step] at hsteady
      obtain ⟨⟨hinv, hsize⟩, hnext⟩ := hsteady P.shared h.inv
      have hrest : Steady I size (k P.shared) := hnext
      have hne : ∀ j ∈ mine, j ≠ i := fun j hj heq => hmine (heq ▸ hj)
      refine ⟨hinv, ?_, ?_, ?_⟩
      · intro j hj
        by_cases heq : j = i
        · subst heq
          simpa using hrest
        · simpa [Function.update_of_ne heq] using h.others j hj
      · intro j hj
        simpa [Function.update_of_ne (hne j hj)] using h.phase j hj
      · have hsame : between check act mine
            (⟨u P.shared, Function.update P.thread i (k P.shared),
              Function.update P.calls i (call :: P.calls i)⟩ : Pool ι κ σ ε α) =
            between check act mine P := by
          apply Finset.filter_congr
          intro j hj
          simp [Function.update_of_ne (hne j hj)]
        rw [hsame]
        dsimp only
        omega

/-- The size stays within the limit, or what it was before, along every schedule in which
each check finds no room or room for all those on their way. -/
theorem exec_bounded {s : σ} {progs : ι → Coro κ σ ε α} {schedule : List ι}
    (hinv : I s) (hothers : ∀ i, i ∉ mine → Steady I size (progs i))
    (hmine : ∀ i ∈ mine, Checks I size limit check act (progs i))
    (hroom : Pool.Respects (RoomLeft size limit check act mine) (Pool.start s progs) schedule) :
    size ((Pool.start s progs).exec schedule).shared ≤ max limit (size s) := by
  have hstart : Bounded I size limit check act mine (max limit (size s)) (Pool.start s progs) := by
    refine ⟨hinv, hothers, ?_, ?_⟩
    · intro i hi
      simpa [Phase, Pool.start] using hmine i hi
    · have hnone : between check act mine (Pool.start s progs) = ∅ := by
        apply Finset.filter_eq_empty_iff.mpr
        intro i _ hb
        simp [Between, Pool.start] at hb
      rw [hnone]
      simp [Pool.start]
  have hend := Pool.exec_invariant
    (fun P i => turn_bounded (I := I) (le_max_left limit (size s)) P i) hroom hstart
  have := hend.bound
  omega

end Turns

end AoMarket.CheckThenAct
