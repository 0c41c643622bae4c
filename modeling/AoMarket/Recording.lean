import AoMarket.Reliance
import Mathlib.Data.List.Induction

/-!
Runs that remember. A recorded coroutine acts on the state and keeps a record of the states
that each coroutine had its turns in, so that what was once the case can be said of the
present. Recording changes nothing of the run: the turns on record are those of the run itself.
-/

namespace AoMarket.Recording

open Coroutine Interleaving Reliance

variable {κ σ ε α β ι : Type}

/-- A state and the turns before it, each with whose it was. -/
structure Recorded (ι σ : Type) where
  now : σ
  past : List (ι × σ)

namespace Recorded

def Turn (t : Recorded ι σ) (i : ι) (s : σ) : Prop := (i, s) ∈ t.past

def Saw (t : Recorded ι σ) (s : σ) : Prop := s = t.now ∨ ∃ i, t.Turn i s

def move (i : ι) (s : σ) (t : Recorded ι σ) : Recorded ι σ := ⟨s, (i, t.now) :: t.past⟩

theorem saw_now (t : Recorded ι σ) : t.Saw t.now := Or.inl rfl

theorem turn_move {i j : ι} {s u : σ} {t : Recorded ι σ} :
    (t.move i s).Turn j u ↔ (j = i ∧ u = t.now) ∨ t.Turn j u := by
  simp [Turn, move]

theorem turn_now (i : ι) (s : σ) (t : Recorded ι σ) : (t.move i s).Turn i t.now :=
  turn_move.mpr (Or.inl ⟨rfl, rfl⟩)

theorem saw_move {i : ι} {s u : σ} {t : Recorded ι σ} :
    (t.move i s).Saw u ↔ u = s ∨ t.Saw u := by
  unfold Saw
  refine or_congr Iff.rfl ⟨fun h => ?_, fun h => ?_⟩
  · obtain ⟨j, hj⟩ := h
    exact (turn_move.mp hj).imp And.right fun hold => ⟨j, hold⟩
  · rcases h with rfl | ⟨j, hj⟩
    · exact ⟨i, turn_now i s t⟩
    · exact ⟨j, turn_move.mpr (Or.inr hj)⟩

end Recorded

/-- What is on record earlier is on record later. -/
structure Later (t u : Recorded ι σ) : Prop where
  saw : ∀ s, t.Saw s → u.Saw s
  turn : ∀ i s, t.Turn i s → u.Turn i s

theorem Later.refl (t : Recorded ι σ) : Later t t := ⟨fun _ h => h, fun _ _ h => h⟩

theorem Later.trans (a b c : Recorded ι σ) (h : Later a b) (h' : Later b c) : Later a c :=
  ⟨fun s hs => h'.saw s (h.saw s hs), fun i s hs => h'.turn i s (h.turn i s hs)⟩

theorem later_move (i : ι) (s : σ) (t : Recorded ι σ) : Later t (t.move i s) :=
  ⟨fun _ h => Recorded.saw_move.mpr (Or.inr h), fun _ _ h => Recorded.turn_move.mpr (Or.inr h)⟩

def record (i : ι) (p : Coro κ σ ε α) : Coro κ (Recorded ι σ) ε α :=
  onPart id Recorded.now (Recorded.move i) p

section Record
variable (i : ι)

theorem record_bind (p : Coro κ σ ε α) (f : α → Coro κ σ ε β) :
    record i (p >>= f) = (record i p >>= fun a => record i (f a)) := onPart_bind _ _ _ p f

theorem record_handle (p : Coro κ σ ε α) (h : ε → Coro κ σ ε α) :
    record i (tryCatch p h) = (tryCatch (record i p) fun e => record i (h e)) := by
  induction p with
  | ret a => rfl
  | raise e => rfl
  | step call u k ih => exact congrArg (Coro.step call _) (funext fun t => ih t.now)

theorem record_ofExcept (r : Except ε α) :
    record i (Coro.ofExcept r : Coro κ σ ε α) = Coro.ofExcept r := by
  cases r with
  | ok a => rfl
  | error e => rfl

theorem record_act (call : κ) (f : σ → Except ε α × σ) :
    record i (Coro.act call f) =
      Coro.act call fun t => ((f t.now).1, Recorded.move i (f t.now).2 t) :=
  congrArg (Coro.step call _) (funext fun t => record_ofExcept i (f t.now).1)

end Record

/-! What every turn on record did -/

def Moves (P : ι → Recorded ι σ → Recorded ι σ → Prop) : σ → List (ι × σ) → Prop
  | _, [] => True
  | s, (i, s') :: rest => P i ⟨s', rest⟩ ⟨s, (i, s') :: rest⟩ ∧ Moves P s' rest

/-! The recording and the run -/

section Pools
variable [DecidableEq ι]

structure Mirrors (P : Pool ι κ σ ε α) (Q : Pool ι κ (Recorded ι σ) ε α) : Prop where
  now : Q.shared.now = P.shared
  thread : ∀ i, Q.thread i = record i (P.thread i)

/-- A turn of the recording pool is a turn of the pool itself, put on record. -/
theorem Mirrors.turn {P : Pool ι κ σ ε α} {Q : Pool ι κ (Recorded ι σ) ε α} (h : Mirrors P Q)
    (i : ι) : Mirrors (P.turn i) (Q.turn i) ∧
      ∀ j u, (Q.turn i).shared.Turn j u → (j = i ∧ u = P.shared) ∨ Q.shared.Turn j u := by
  have hthread := h.thread i
  cases hi : P.thread i with
  | ret a | raise e =>
    rw [hi] at hthread
    rw [Pool.turn_of_finished (by rw [hi]; rfl), Pool.turn_of_finished (by rw [hthread]; rfl)]
    exact ⟨h, fun _ u hu => Or.inr hu⟩
  | step call u k =>
    rw [hi] at hthread
    have hturn := Pool.turn_of_step hi
    have hstep : Q.thread i = .step call (fun t => t.move i (u t.now))
        fun t => record i (k t.now) :=
      hthread
    rw [hturn, Pool.turn_of_step hstep]
    refine ⟨⟨?_, fun j => ?_⟩, fun j s hs => ?_⟩
    · show u Q.shared.now = u P.shared
      rw [h.now]
    · by_cases hji : j = i
      · subst hji
        simp [h.now]
      · simpa [Function.update_of_ne hji] using h.thread j
    · rw [← h.now]
      exact Recorded.turn_move.mp hs

/-- A run with records mirrors the run itself, and every turn on record is one of the schedule. -/
theorem mirrors_exec (s : σ) (progs : ι → Coro κ σ ε α) (schedule : List ι) :
    Mirrors ((Pool.start s progs).exec schedule)
        ((Pool.start ⟨s, []⟩ fun i => record i (progs i)).exec schedule) ∧
      ∀ i u, ((Pool.start ⟨s, []⟩ fun i => record i (progs i)).exec schedule).shared.Turn i u →
        ∃ before after, schedule = before ++ i :: after ∧
          u = ((Pool.start s progs).exec before).shared := by
  induction schedule using List.reverseRecOn with
  | nil => exact ⟨⟨rfl, fun _ => rfl⟩, fun _ u hu => absurd hu List.not_mem_nil⟩
  | append_singleton rest j ih =>
    obtain ⟨hmirror, hseen⟩ := ih
    obtain ⟨hturn, hnew⟩ := hmirror.turn j
    have hlast : ∀ {τ : Type} (P : Pool ι κ τ ε α), P.exec (rest ++ [j]) = (P.exec rest).turn j :=
      fun P => List.foldl_concat ..
    rw [hlast, hlast]
    refine ⟨hturn, fun i u hu => ?_⟩
    rcases hnew i u hu with ⟨rfl, rfl⟩ | hold
    · exact ⟨rest, [], rfl, rfl⟩
    · obtain ⟨before, after, hsplit, hbefore⟩ := hseen i u hold
      exact ⟨before, after ++ [j], by rw [hsplit, List.append_assoc, List.cons_append], hbefore⟩

end Pools

/-! What a recorded coroutine does -/

section Does
variable {I : Recorded ι σ → Prop} {i : ι} {t : Recorded ι σ} {F : α → Recorded ι σ → Prop}
  {E : ε → Recorded ι σ → Prop}

/-- To account for a recorded call, account for the state it puts on record. -/
theorem does_record_act (ht : I t) {call : κ} {f : σ → Except ε α × σ}
    (hf : ∀ u, I u → Later t u → I (u.move i (f u.now).2) ∧
      (∀ a, (f u.now).1 = .ok a → F a (u.move i (f u.now).2)) ∧
      ∀ e, (f u.now).1 = .error e → E e (u.move i (f u.now).2)) :
    Does I Later (record i (Coro.act call f)) t F E := by
  rw [record_act]
  refine Does.act ht fun u hu hlater => ?_
  obtain ⟨hI, hok, herror⟩ := hf u hu hlater
  exact ⟨fun _ => ⟨hI, later_move i _ u⟩, hok, herror⟩

/-- Calls that keep the invariant as long as something is known that stays known. -/
theorem does_record_frames {K : Recorded ι σ → Prop} {S : σ → σ → Prop} {p : Coro κ σ ε α}
    (hp : p.Frames S) (hK : ∀ t u, Later t u → K t → K u)
    (hS : ∀ u s, K u → S (Recorded.now u) s → I u → I (u.move i s)) (ht : I t) (hknown : K t) :
    Does I Later (record i p) t (fun _ _ => True) fun _ _ => True := by
  unfold Coro.Frames at hp
  induction p generalizing t with
  | ret a => exact ⟨ht, trivial⟩
  | raise e => exact ⟨ht, trivial⟩
  | step call u k ih =>
    intro v hv
    obtain ⟨hI, hlater⟩ := hv ht
    obtain ⟨hstep, hnext⟩ := Coro.always_step.mp hp v.now trivial
    have hnow := hK t v hlater hknown
    have hmove := later_move i (u v.now) v
    have hkept : I (v.move i (u v.now)) := hS v _ hnow hstep hI
    exact ⟨fun _ => ⟨hkept, hmove⟩, ih v.now hnext hkept (hK _ _ hmove hnow)⟩

theorem does_record_bind {p : Coro κ σ ε α} {f : α → Coro κ σ ε β}
    {F' : β → Recorded ι σ → Prop} (hp : Does I Later (record i p) t F E)
    (hf : ∀ a u, I u → F a u → Does I Later (record i (f a)) u F' E) :
    Does I Later (record i (p >>= f)) t F' E := by
  rw [record_bind]
  exact Does.bind hp hf

end Does

end AoMarket.Recording
