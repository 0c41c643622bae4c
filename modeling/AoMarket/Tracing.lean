import AoMarket.Concurrency
import AoMarket.Recording

/-!
Accounting for what a run adds. An invariant over the record of a run that every call of a
certain kind keeps, and the rules by which the other calls are shown to keep it: each may use
what was read in earlier turns of its own coroutine.
-/

namespace AoMarket.Tracing

open Coroutine Interleaving Reliance Recording Database Environment Commands AdminCommands Runner
  Writes ChatWrites HttpRoutes Concurrency

variable {ι : Type} {i : ι} {env : Env} {α β : Type}

/-- Steps in `S` need no account, idle ones among them, and time goes on. -/
class Accountable (I : Recorded ι World → Prop) (S : outParam (World → World → Prop)) : Prop where
  ticks : ∀ t u, I t → t.Saw u → u.tick ≤ t.now.tick
  quiet : ∀ i t w, S t.now w → I t → I (t.move i w)
  next : ∀ w : World, S w w.next

/-- A recorded coroutine that accounts for what it adds. -/
def Accounts (I : Recorded ι World → Prop) (i : ι) (p : M α) (t : Recorded ι World)
    (F : α → Recorded ι World → Prop) : Prop :=
  Does I Later (record i p) t F fun _ _ => True

/-! Time goes on from whatever is on record -/

theorem tick_le_start (w : World) : ∀ u, (⟨w, []⟩ : Recorded ι World).Saw u → u.tick ≤ w.tick := by
  rintro u (rfl | ⟨i, hu⟩)
  · exact le_refl _
  · cases hu

theorem tick_le_move {t : Recorded ι World} {w : World} (h : ∀ u, t.Saw u → u.tick ≤ t.now.tick)
    (htick : t.now.tick ≤ w.tick) : ∀ u, (t.move i w).Saw u → u.tick ≤ w.tick := by
  intro u hu
  rcases Recorded.saw_move.mp hu with rfl | hold
  · exact le_refl _
  · exact (h u hold).trans htick

/-! Accounts -/

variable {I : Recorded ι World → Prop} {S : World → World → Prop} {t u : Recorded ι World} {p : M α}
  {F : α → Recorded ι World → Prop}

theorem Accounts.pure {a : α} (ht : I t) (h : F a t) : Accounts I i (pure a) t F := Does.pure ht h

/-- What held before may be carried over to where the coroutine ends. -/
theorem Accounts.since {F' : α → Recorded ι World → Prop} (ht : I t) (hp : Accounts I i p t F)
    (hF : ∀ a u, Later t u → F a u → F' a u) : Accounts I i p t F' :=
  Does.mono (Does.since Later.refl Later.trans ht hp) (fun a u h => hF a u h.1 h.2)
    fun _ _ _ => trivial

theorem Accounts.bind {f : α → M β} {F' : β → Recorded ι World → Prop} (ht : I t)
    (hp : Accounts I i p t F)
    (hf : ∀ a u, I u → Later t u → F a u → Accounts I i (f a) u F') :
    Accounts I i (p >>= f) t F' := by
  have hsince : Accounts I i p t fun a u => Later t u ∧ F a u :=
    hp.since ht fun _ _ hlater h => ⟨hlater, h⟩
  exact does_record_bind hsince fun a u hu h => hf a u hu h.1 h.2

theorem Accounts.ofExcept_bind {r : Except PyErr α} {f : α → M β}
    {F' : β → Recorded ι World → Prop} (ht : I t)
    (hf : ∀ a, r = .ok a → Accounts I i (f a) t F') :
    Accounts I i (Coro.ofExcept r >>= f) t F' := by
  cases r with
  | ok a => exact hf a rfl
  | error e => exact Does.throw ht trivial

theorem Accounts.handle {h : PyErr → M α} (hp : Accounts I i p t F)
    (hh : ∀ e u, I u → Accounts I i (h e) u F) : Accounts I i (tryCatch p h) t F := by
  unfold Accounts
  rw [record_handle]
  exact Does.handle hp fun e u hu _ => hh e u hu

theorem Accountable.tick_le [Accountable I S] (hu : I u) (h : Later t u) :
    t.now.tick ≤ u.now.tick :=
  Accountable.ticks u _ hu (h.saw _ t.saw_now)

theorem accountable_next [Accountable I S] (ht : I t) : I (t.move i t.now.next) :=
  Accountable.quiet i t _ (Accountable.next I t.now) ht

theorem accounts_quiet [Accountable I S] (hp : p.Frames S) (ht : I t) :
    Accounts I i p t fun _ _ => True :=
  @does_record_frames _ _ _ _ _ I i t (fun _ => True) S p hp (fun _ _ _ h => h)
    (fun t w _ hs ht => Accountable.quiet i t w hs ht) ht trivial

/-- A statement is accounted for if its effect is, in whatever state the statement finds. -/
theorem accounts_statement [Accountable I S] {call : Call}
    {f : ℕ → Db → Except PyErr (α × Db × List Event)} (ht : I t)
    (hok : ∀ u, I u → Later t u → ∀ a db note, f u.now.tick u.now.db = .ok (a, db, note) →
      I (u.move i { db := db, tick := u.now.tick + 1, log := u.now.log ++ note }) ∧
        F a (u.move i { db := db, tick := u.now.tick + 1, log := u.now.log ++ note })) :
    Accounts I i (statement env call f) t F := by
  refine does_record_act ht fun u hu hlater => ?_
  cases hfault : env.dbFault u.now.tick with
  | some e => exact ⟨accountable_next hu, by simp, by simp⟩
  | none =>
    dsimp only
    cases hres : f u.now.tick u.now.db with
    | error e => exact ⟨accountable_next hu, by simp, by simp⟩
    | ok r =>
      obtain ⟨hnow, hF⟩ := hok u hu hlater r.1 r.2.1 r.2.2 hres
      refine ⟨hnow, fun a ha => ?_, fun _ _ => trivial⟩
      rw [← Except.ok.inj ha]
      exact hF

/-- A query answers about a world that its coroutine has then had a turn in. -/
theorem accounts_query [Accountable I S] {call : Call} {f : ℕ → Db → Except PyErr α}
    {note : List Event} (hsteps : ∀ w : World, S w { w.next with log := w.log ++ note })
    (ht : I t)
    (hF : ∀ (w : World) u a, t.now.tick ≤ w.tick → Recorded.Turn u i w → Later t u →
      f w.tick w.db = .ok a → F a u) :
    Accounts I i (query env call f note) t F := by
  refine accounts_statement ht fun u hu hlater a db note' hres => ?_
  cases hf : f u.now.tick u.now.db with
  | error e =>
    rw [hf] at hres
    cases hres
  | ok b =>
    rw [hf] at hres
    cases hres
    refine ⟨Accountable.quiet i u _ (hsteps u.now) hu, ?_⟩
    refine hF u.now _ a (Accountable.tick_le hu hlater) ?_ ?_ hf
    · exact u.turn_now i _
    · exact Later.trans _ _ _ hlater (later_move i _ u)

theorem accounts_external [Accountable I S] {call : Call} {f : ℕ → Except PyErr α}
    {note : α → List Event} (ht : I t)
    (hok : ∀ u, I u → Later t u → ∀ a, f u.now.tick = .ok a →
      I (u.move i { u.now.next with log := u.now.log ++ note a }) ∧
        F a (u.move i { u.now.next with log := u.now.log ++ note a })) :
    Accounts I i (external call f note) t F := by
  refine does_record_act ht fun u hu hlater => ?_
  cases hres : f u.now.tick with
  | error e => exact ⟨accountable_next hu, by simp, by simp⟩
  | ok a =>
    obtain ⟨hnow, hF⟩ := hok u hu hlater a hres
    refine ⟨hnow, fun b hb => ?_, fun _ _ => trivial⟩
    rw [← Except.ok.inj hb]
    exact hF

/-! Tasks -/

/-- A request accounts for what it adds when its handler does, given what the guard found. -/
theorem accounts_serve [Accountable I S] {app : App} {request : Request} {xApiKey : Option String}
    {K : Recorded ι World → Prop} (ht : I t)
    (hguard : Accounts I i (checkGuard app.env xApiKey (guardOf request)) t fun stopped u =>
      stopped = none → K u)
    (hhandler : ∀ u, I u → K u → Accounts I i (handler app request) u fun _ _ => True) :
    Accounts I i (serve app xApiKey request) t fun _ _ => True := by
  refine Accounts.handle ?_ fun e u hu => ?_
  · refine Accounts.bind ht hguard fun stopped u hu _ hpass => ?_
    cases stopped with
    | some response => exact Accounts.pure hu trivial
    | none => exact hhandler u hu (hpass rfl)
  · cases e with
    | market e => exact Accounts.pure hu trivial
    | _ => exact accounts_quiet (Coro.Frames.throw _) hu

/-- The same where nothing depends on the guard. -/
theorem accounts_serve_open [Accountable I S] {app : App} {request : Request}
    (xApiKey : Option String) (ht : I t)
    (hguard : (checkGuard app.env xApiKey (guardOf request)).Frames S)
    (hhandler : ∀ u, I u → Accounts I i (handler app request) u fun _ _ => True) :
    Accounts I i (serve app xApiKey request) t fun _ _ => True :=
  accounts_serve (K := fun _ => True) ht
    ((accounts_quiet hguard ht).since ht fun _ _ _ _ _ => trivial) fun u hu _ => hhandler u hu

theorem accounts_discarded (hp : Accounts I i p t fun _ _ => True) (ht : I t) :
    Accounts I i (do let _ ← p : M Unit) t fun _ _ => True :=
  Accounts.bind ht hp fun _ _ hu _ _ => Accounts.pure hu trivial

section Tells
variable [Accountable I S] (hsilent : ∀ w w', Steps (fun _ => False) w w' → S w w')
include hsilent

/-- A message accounts for what it adds when the command it selects does. -/
theorem accounts_selected {player msg : String} (ht : I t)
    (hdispatch : ∀ name gs u, selectCommand msg = some (name, gs) → I u → Later t u →
      Accounts I i (Commands.dispatch env player name gs) u fun _ _ => True) :
    Accounts I i (handleCommand env player msg) t fun _ _ => True := by
  have hquiet : ∀ {β : Type} {q : M β}, Keeps (fun _ => False) q → q.Frames S :=
    fun h => Coro.Frames.mono h hsilent
  refine Accounts.bind ht (accounts_quiet (hquiet (keeps_getBool _)) ht) fun on u hu hlater _ => ?_
  cases on with
  | false => exact Accounts.pure hu trivial
  | true =>
    cases hsel : selectCommand msg with
    | none => exact Accounts.pure hu trivial
    | some c =>
      refine Accounts.handle (hdispatch c.1 c.2 u hsel hu hlater) fun e v hv => ?_
      cases e with
      | market e => exact Accounts.pure hv trivial
      | _ => exact accounts_quiet (Coro.Frames.throw _) hv

/-- A tell accounts for what it adds when the two commands do that may answer it. -/
theorem accounts_tell {nameForId : ℕ → Option String} {tell : InboundTell} (ht : I t)
    (hadmin : Accounts I i (handleAdminCommand env (playerName nameForId tell.senderId)
      tell.message) t fun _ _ => True)
    (hcommand : ∀ u, I u → Later t u → Accounts I i (handleCommand env
      (playerName nameForId tell.senderId) tell.message) u fun _ _ => True) :
    Accounts I i (handleTell env nameForId tell) t fun _ _ => True := by
  have hsend : ∀ reply, (sendReply env tell.senderId reply).Frames S := fun reply =>
    Coro.Frames.mono (keeps_sendReply (A := fun _ => False) tell.senderId reply) hsilent
  unfold handleTell
  refine Accounts.bind ht (F := fun _ _ => True) ?_ fun reply u hu _ _ => ?_
  · refine Accounts.bind ht hadmin fun reply u hu hlater _ => ?_
    cases reply with
    | some r => exact Accounts.pure hu trivial
    | none => exact hcommand u hu hlater
  · have hsent := hsend reply
    generalize sendReply env tell.senderId reply = p at hsent ⊢
    exact accounts_quiet hsent hu

end Tells

/-- When every task accounts for what it adds, the invariant holds of the turns of the run. -/
theorem traced [DecidableEq ι] {app : App} {tasks : ι → Task} {w : World} (hstart : I ⟨w, []⟩)
    (h : ∀ i, Accounts I i (program app (tasks i)) ⟨w, []⟩ fun _ _ => True) (schedule : List ι) :
    ∃ t : Recorded ι World, t.now = afterwards app tasks w schedule ∧
      (∀ i u, t.Turn i u → TurnOf app tasks w schedule i u) ∧ I t := by
  obtain ⟨hmirror, hturns⟩ := mirrors_exec w (fun i => program app (tasks i)) schedule
  exact ⟨_, hmirror.now, hturns, (exec_keeps Later.refl Later.trans hstart h schedule).1⟩

end AoMarket.Tracing
