import AoMarket.HttpAccess

/-!
The writes of the routes: a table with one line a route, and the proof that each
handler keeps to its line. An operator's trigger writes what its cycle writes.
-/

namespace AoMarket.HttpWrites

open Coroutine Environment Writes ServiceWrites HttpRoutes HttpAccess

/-- The writes of a background poll before its loop, and those of its turns. -/
def PollCycleWrites (op : Write) : Prop :=
  (∃ aoids, op = .deleteStale aoids) ∨ op = .pruneHistory ∨
    ∃ aoid now, PollWrites aoid now op

def SyncWrites (op : Write) : Prop :=
  op = .backoff ∨ op = .unflag ∨ (∃ aoid, op = .upsertWatch aoid) ∨ op = .setting

def RequestWrites (request : Request) (op : Write) : Prop :=
  match request with
  | .register player => op = .insertUser player ∨ op = .insertAction
  | .updateSetting _ _ => op = .setting
  | .startWatching aoid => op = .upsertWatch aoid
  | .stopTracking aoid => op = .deleteWatch aoid
  | .unregister player confirm => confirm = true ∧ op = .eraseUser player
  | .subscribe player aoid => op = .upsertWatch aoid ∨ SubscribeWrites player aoid op
  | .unsubscribe player aoid => op = .deleteSubscription player aoid ∨ op = .insertAction
  | .bulkUnsubscribe player aoids =>
    op = .insertAction ∨ ∃ aoid ∈ aoids, op = .deleteSubscription player aoid
  | .unsubscribeAll player confirm =>
    confirm = true ∧ (op = .deleteSubscriptions player ∨ op = .insertAction)
  | .updateFilter player aoid _ _ | .clearFilter player aoid => op = .updateFilter player aoid
  | .untrackAll confirm => confirm = true ∧ op = .clearWatch
  | .triggerPoll => PollCycleWrites op
  | .triggerAutotrack => SyncWrites op
  | _ => False

variable {A : Write → Prop}

theorem keeps_pollMarket {env : Env} : Keeps PollCycleWrites (Polling.pollMarket env) := by
  have hselect : Keeps PollCycleWrites (Polling.selectDue env) :=
    keeps_selectDue (fun aoids => Or.inl ⟨aoids, rfl⟩) (Or.inr (Or.inl rfl))
  refine Coro.Frames.bind hselect fun due => ?_
  have hloop : Keeps PollCycleWrites (Polling.pollItems env due.now (some due.began) due.items) := by
    apply keeps_pollItems
    intro watch _ op hop
    exact Or.inr (Or.inr ⟨watch.aoid, due.now, hop⟩)
  refine Coro.Frames.bind hloop fun updated => ?_
  exact Coro.Frames.bind (keeps_announceCycle due updated) fun _ => Coro.Frames.pure _

theorem keeps_sync {env : Env} : Keeps SyncWrites (AutoTrack.syncTopTradedItems env) := by
  apply keeps_syncTopTradedItems
  · exact Or.inl rfl
  · exact Or.inr (Or.inl rfl)
  · exact fun aoid => Or.inr (Or.inr (Or.inl ⟨aoid, rfl⟩))
  · exact Or.inr (Or.inr (Or.inr rfl))

theorem keeps_onBot {app : App} {α : Type} {p : M α} (h : Keeps A p) (done : Body) :
    Keeps A (onBot app p done) := by
  unfold onBot
  split
  · exact Coro.Frames.pure _
  · exact Coro.Frames.bind h fun _ => Coro.Frames.pure _

/-- A handler writes nothing but what the table of its route allows. -/
theorem keeps_handler (app : App) (request : Request) :
    Keeps (RequestWrites request) (handler app request) := by
  by_cases hopen : guardOf request = .anyone ∧ ∀ player, request ≠ .register player
  · exact keeps_openHandler hopen.1 hopen.2
  cases request with
  | register player =>
    exact Coro.Frames.bind (keeps_register (Or.inl rfl) (Or.inr rfl)) fun _ => Coro.Frames.pure _
  | updateSetting key value =>
    apply keeps_orUnknownSetting
    refine Coro.Frames.bind (keeps_set (A := RequestWrites (.updateSetting key value)) rfl key value)
      fun _ => ?_
    exact Coro.Frames.bind (keeps_get key) fun _ => Coro.Frames.pure _
  | startWatching aoid =>
    refine Coro.Frames.bind (keeps_getItem aoid) fun item => ?_
    cases item with
    | none => exact Coro.Frames.throw _
    | some i =>
      refine Coro.Frames.bind (keeps_watchItem ?_ _ _ _ _) fun _ => Coro.Frames.pure _
      exact rfl
  | stopTracking aoid =>
    have hdelete : Keeps (RequestWrites (.stopTracking aoid)) (MarketRepo.deleteWatch app.env aoid) :=
      keeps_deleteWatch rfl
    refine Coro.Frames.bind hdelete fun deleted => ?_
    cases deleted with
    | false => exact Coro.Frames.pure _
    | true => exact Coro.Frames.pure _
  | unregister player confirm =>
    cases confirm with
    | false => exact Coro.Frames.pure _
    | true =>
      exact Coro.Frames.bind (keeps_unregister ⟨rfl, rfl⟩) fun _ => Coro.Frames.pure _
  | subscribe player aoid =>
    refine Coro.Frames.bind (keeps_subscribe ?_ ?_ ?_) fun _ => Coro.Frames.pure _
    · exact Or.inl rfl
    · exact Or.inr (Or.inl rfl)
    · exact Or.inr (Or.inr rfl)
  | unsubscribe player aoid =>
    refine Coro.Frames.bind (keeps_unsubscribe (Or.inl rfl) (Or.inr rfl)) fun deleted => ?_
    cases deleted with
    | false => exact Coro.Frames.pure _
    | true => exact Coro.Frames.pure _
  | bulkUnsubscribe player aoids =>
    refine Coro.Frames.bind (keeps_unsubscribeBulk ?_ ?_) fun _ => Coro.Frames.pure _
    · exact Or.inl rfl
    · exact fun aoid hmem => Or.inr ⟨aoid, hmem, rfl⟩
  | unsubscribeAll player confirm =>
    cases confirm with
    | false => exact Coro.Frames.pure _
    | true =>
      refine Coro.Frames.bind (keeps_unsubscribeAll ?_ ?_) fun _ => Coro.Frames.pure _
      · exact ⟨rfl, Or.inl rfl⟩
      · exact ⟨rfl, Or.inr rfl⟩
  | updateFilter player aoid priceSpec qlSpec =>
    apply HttpAccess.keeps_updateFilter
    exact rfl
  | clearFilter player aoid =>
    have hclear : Keeps (RequestWrites (.clearFilter player aoid))
        (MarketService.clearFilter app.env player aoid) := keeps_clearFilter rfl
    refine Coro.Frames.bind hclear fun _ => ?_
    exact Coro.Frames.bind (keeps_requireSubscription player aoid) fun _ => Coro.Frames.pure _
  | untrackAll confirm =>
    cases confirm with
    | false => exact Coro.Frames.pure _
    | true => exact Coro.Frames.bind (keeps_clearWatch ⟨rfl, rfl⟩) fun _ => Coro.Frames.pure _
  | triggerPoll => exact keeps_onBot keeps_pollMarket _
  | triggerAutotrack => exact keeps_onBot keeps_sync _
  | sendTell player message => exact keeps_onBot (keeps_sendTell player message) _
  | _ => exact absurd ⟨rfl, by simp⟩ hopen

/-! Who a guard lets pass -/

/-- The header holds a valid key that the guard accepts. -/
def Authorized (env : Env) (w : World) (xApiKey : Option String) (guard : Guard) : Prop :=
  ∃ p, keyOwner env w.db xApiKey = some p ∧ (IsAdmin env w.db p ∨ guard = .player p)

theorem authorized_of_pass {env : Env} {xApiKey : Option String} {guard : Guard} {w : World}
    (hguard : guard ≠ .anyone) (hpass : ((checkGuard env xApiKey guard).run w).1 = .ok none) :
    Authorized env w xApiKey guard := owner_of_pass hguard hpass

end AoMarket.HttpWrites
