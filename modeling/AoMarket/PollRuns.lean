import AoMarket.ChatWrites
import AoMarket.PollTurn

/-!
Whole runs: poll cycles and all the other operations of the bot, one after the
other. `runTurns` lists the turns of the poll loop a run comes to, each with the
state it starts in; what the turns and the other operations preserve, the run
preserves.
-/

namespace AoMarket.PollRuns

open Coroutine Models Database OrderBook Environment MarketRepo Polling Writes ServiceWrites
  ChatWrites PollTurn

def Background : Write → Prop
  | .fetch _ | .notify _ | .alertTell _ _ | .queueAlert _ _ | .insertHistory _ _
  | .replaceSeen _ | .setLastPolled _ _ => False
  | _ => True

inductive Move (env : Env) where
  | cycle
  | other (p : M Unit) (h : Keeps Background p)

/-- Any operation may be a move, whatever it returns. -/
def Move.of {env : Env} {α : Type} (p : M α) (h : Keeps Background p) : Move env :=
  .other (do let _ ← p) (Coro.Frames.bind h fun _ => Coro.Frames.pure _)

structure Turn where
  now : ℤ
  began : Option ℕ
  watch : MarketWatch
  start : World

def Turn.stop (env : Env) (t : Turn) : World := ((pollItem env t.now t.began t.watch).run t.start).2

/-! Everything else is background -/

section Operations
variable {env : Env}

theorem background_of_commandWrites {player : String} {name : Commands.Command}
    {gs : Regex.Groups} {op : Write} (h : CommandWrites player name gs op) : Background op := by
  cases name with
  | register => rcases h with rfl | rfl <;> trivial
  | apikeyGenerate => rcases h with rfl | rfl | rfl <;> trivial
  | unregister | untrackAll | apikeyRevoke | overview | filterPrice | filterQl | filterClear =>
    obtain ⟨_, rfl⟩ := h
    trivial
  | unwatchAll => obtain ⟨_, rfl | rfl⟩ := h <;> trivial
  | unwatchBulk | unwatch => rcases h with rfl | ⟨_, rfl⟩ <;> trivial
  | watchAoid => rcases h with rfl | ⟨_, rfl | rfl⟩ <;> trivial
  | _ => exact h.elim

theorem background_handleTell (nameForId : ℕ → Option String) (tell : Runner.InboundTell) :
    Keeps Background (Runner.handleTell env nameForId tell) := by
  apply Coro.Frames.mono (keeps_handleTell nameForId tell)
  intro w w' h
  apply h.mono
  rintro op (rfl | ⟨name, gs, _, hop⟩)
  · trivial
  · exact background_of_commandWrites hop

theorem background_deliverPendingAlerts (player : String) :
    Keeps Background (deliverPendingAlerts env player) :=
  keeps_deliverPendingAlerts trivial

theorem background_syncTopTradedItems : Keeps Background (AutoTrack.syncTopTradedItems env) :=
  keeps_syncTopTradedItems trivial trivial (fun _ => trivial) trivial

theorem background_watchItem (aoid : ℤ) (name : String) (ql : ℤ) (icon : Option ℤ) (auto : Bool) :
    Keeps Background (MarketService.watchItem env aoid name ql icon auto) :=
  keeps_watchItem trivial name ql icon auto

theorem background_subscribe (player : String) (aoid : ℤ) :
    Keeps Background (MarketService.subscribe env player aoid) :=
  keeps_subscribe trivial trivial trivial

theorem background_deleteWatch (aoid : ℤ) : Keeps Background (deleteWatch env aoid) :=
  keeps_deleteWatch trivial

theorem background_untrackAll : Keeps Background (MarketService.untrackAll env) :=
  keeps_clearWatch trivial

theorem background_expireStaleWatch (cutoff : ℤ) : Keeps Background (expireStaleWatch env cutoff) :=
  keeps_expireStaleWatch (fun _ => trivial) cutoff

end Operations

/-! Turns -/

variable (env : Env)

/-- The turns the loop comes to; an exception ends it. -/
def itemTurns (now : ℤ) : Option ℕ → List MarketWatch → World → List Turn
  | _, [], _ => []
  | began, watch :: rest, w => ⟨now, began, watch, w⟩ ::
    match (pollItem env now began watch).run w with
    | (.ok _, w') => itemTurns now none rest w'
    | (.error _, _) => []

def cycleTurns (w : World) : List Turn :=
  match (selectDue env).run w with
  | (.ok due, w') => itemTurns env due.now (some due.began) due.items w'
  | (.error _, _) => []

def Move.perform : Move env → World → World
  | .cycle, w => ((pollMarket env).run w).2
  | .other p _, w => (p.run w).2

def Move.turns : Move env → World → List Turn
  | .cycle, w => cycleTurns env w
  | .other _ _, _ => []

def play (moves : List (Move env)) (w : World) : World :=
  moves.foldl (fun w m => m.perform env w) w

def runTurns : List (Move env) → World → List Turn
  | [], _ => []
  | m :: rest, w => m.turns env w ++ runTurns rest (m.perform env w)

section Invariant
variable {env} {J : World → Prop} {C : Turn → Prop}

/-- What a turn preserves, the loop over the due items preserves. -/
theorem items_invariant (hturn : ∀ t, C t → J t.start → J (t.stop env)) {now : ℤ}
    {began : Option ℕ} {due : List MarketWatch} {w : World} (hC : ∀ t ∈ itemTurns env now began due w, C t) (hJ : J w) :
    J ((pollItems env now began due).run w).2 ∧ ∀ t ∈ itemTurns env now began due w, J t.start := by
  induction due generalizing began w with
  | nil => exact ⟨hJ, by simp [itemTurns]⟩
  | cons watch rest ih =>
    have hfirst : J ((pollItem env now began watch).run w).2 :=
      hturn ⟨now, began, watch, w⟩ (hC _ List.mem_cons_self) hJ
    rw [itemTurns] at hC ⊢
    rcases hrun : (pollItem env now began watch).run w with ⟨e | updated, w'⟩
    · rw [hrun] at hfirst
      constructor
      · rw [pollItems, Coro.run_bind_error hrun]
        exact hfirst
      · intro t ht
        rw [List.mem_singleton.mp ht]
        exact hJ
    · rw [hrun] at hfirst hC
      obtain ⟨hrest, hstarts⟩ := ih (fun t ht => hC t (List.mem_cons_of_mem _ ht)) hfirst
      constructor
      · rw [pollItems, Coro.run_bind_ok hrun, Coro.run_bind]
        split
        · next h => rwa [h] at hrest
        · next h => rwa [h] at hrest
      · intro t ht
        rcases List.mem_cons.mp ht with rfl | ht
        · exact hJ
        · exact hstarts t ht

theorem background_selectDue : Keeps Background (selectDue env) :=
  keeps_selectDue (fun _ => trivial) trivial

/-- What the turns under the condition keep, and everything else keeps, a cycle keeps. -/
theorem cycle_invariant (hturn : ∀ t, C t → J t.start → J (t.stop env))
    (hother : ∀ (α : Type) (p : M α) (w : World), Keeps Background p → J w → J (p.run w).2)
    {w : World} (hC : ∀ t ∈ cycleTurns env w, C t) (hJ : J w) :
    J ((pollMarket env).run w).2 ∧ ∀ t ∈ cycleTurns env w, J t.start := by
  have hselect := hother _ _ w (@background_selectDue env) hJ
  unfold pollMarket
  unfold cycleTurns at hC ⊢
  rcases hrun : (selectDue env).run w with ⟨e | due, w'⟩
  · rw [hrun] at hselect
    rw [Coro.run_bind_error hrun]
    exact ⟨hselect, by simp⟩
  · rw [hrun] at hselect hC
    obtain ⟨hitems, hstarts⟩ := items_invariant hturn hC hselect
    refine ⟨?_, hstarts⟩
    rw [Coro.run_bind_ok hrun, Coro.run_bind]
    rcases hloop : (pollItems env due.now (some due.began) due.items).run w' with ⟨e | updated, w₁⟩
    · rw [hloop] at hitems
      exact hitems
    · rw [hloop] at hitems
      have hannounce := hother _ (announceCycle env due updated) w₁ (keeps_announceCycle due updated)
        hitems
      dsimp only
      rw [Coro.run_bind]
      split
      · next h => rwa [h] at hannounce
      · next h => rwa [h] at hannounce

/-- The same of a run of cycles and other operations, by induction over its moves. -/
theorem play_invariant (hturn : ∀ t, C t → J t.start → J (t.stop env))
    (hother : ∀ (α : Type) (p : M α) (w : World), Keeps Background p → J w → J (p.run w).2)
    {moves : List (Move env)} {w : World} (hC : ∀ t ∈ runTurns env moves w, C t) (hJ : J w) :
    J (play env moves w) ∧ ∀ t ∈ runTurns env moves w, J t.start := by
  induction moves generalizing w with
  | nil => exact ⟨hJ, by simp [runTurns]⟩
  | cons m rest ih =>
    have hfirst : J (m.perform env w) ∧ ∀ t ∈ m.turns env w, J t.start := by
      cases m with
      | cycle => exact cycle_invariant hturn hother (fun t ht => hC t (List.mem_append_left _ ht)) hJ
      | other p h => exact ⟨hother _ p w h hJ, by simp [Move.turns]⟩
    obtain ⟨hend, hstarts⟩ := ih (fun t ht => hC t (List.mem_append_right _ ht)) hfirst.1
    refine ⟨hend, ?_⟩
    intro t ht
    rcases List.mem_append.mp ht with ht | ht
    · exact hfirst.2 t ht
    · exact hstarts t ht

end Invariant

end AoMarket.PollRuns
