import AoMarket.ServiceWrites

/-!
The operations on a player's rows. Each commits one change of market_users and
market_subscriptions and then logs and announces it. An operation that raises has
either changed nothing, or made its whole change and raised in what follows it.
-/

namespace AoMarket.PlayerOperations

open Coroutine Outcomes Relational Models Database Environment MarketRepo MarketService
open Writes ServiceWrites

inductive PlayerOp where
  | register
  | unregister
  | subscribe (aoid : ℤ)
  | unsubscribe (aoid : ℤ)
  | unsubscribeAll
deriving DecidableEq, Repr

def perform (env : Env) (player : String) : PlayerOp → M Unit
  | .register => MarketService.register env player
  | .unregister => do let _ ← MarketService.unregister env player
  | .subscribe aoid => do let _ ← MarketService.subscribe env player aoid
  | .unsubscribe aoid => do let _ ← MarketService.unsubscribe env player aoid
  | .unsubscribeAll => do let _ ← MarketService.unsubscribeAll env player

/-- What follows the commit. -/
def epilogue (env : Env) (player : String) : PlayerOp → M Unit
  | .register => MarketService.logAction env player "register" none
  | .unregister => announce env player "unregister" none
  | .subscribe aoid => MarketService.logAction env player "watch" (some aoid)
  | .unsubscribe aoid => MarketService.logAction env player "unwatch" (some aoid)
  | .unsubscribeAll => MarketService.logAction env player "unwatch_all" none

structure Rows where
  users : List MarketUser
  subscriptions : List MarketSubscription
deriving DecidableEq

def rowsOf (db : Db) : Rows := ⟨db.users, db.subscriptions⟩

def Intended (player : String) (before after : Rows) : PlayerOp → Prop
  | .register => after =
      { before with users := before.users ++ [{ player := player, isAdmin := false }] }
  | .unregister => after =
      ⟨deleteRows (fun u => u.player == player) before.users,
        deleteRows (fun s => s.player == player) before.subscriptions⟩
  | .subscribe aoid => ∃ t, after =
      { before with
        subscriptions := before.subscriptions ++ [{ player := player, aoid := aoid, createdAt := t }] }
  | .unsubscribe aoid => after =
      { before with
        subscriptions := deleteRows (fun s => s.key == (player, aoid)) before.subscriptions }
  | .unsubscribeAll => after =
      { before with subscriptions := deleteRows (fun s => s.player == player) before.subscriptions }

def RaisedAfter (env : Env) (player : String) (op : PlayerOp) (w : World) (e : PyErr)
    (w' : World) : Prop :=
  Intended player (rowsOf w.db) (rowsOf w'.db) op ∧
    ∃ done, Intended player (rowsOf w.db) (rowsOf done.db) op ∧
      (epilogue env player op).run done = (.error e, w')

section Parts
variable {env : Env} {player : String} {w : World}

def Beside (op : Write) : Prop := op = .insertAction ∨ ∃ aoid, op = .upsertWatch aoid

theorem rowsOf_of_effect {op : Write} {db db' : Db} {note : List Event} (hop : Beside op)
    (h : Effect op db db' note) : rowsOf db' = rowsOf db := by
  unfold rowsOf
  rcases hop with rfl | ⟨aoid, rfl⟩
  · cases h
    rfl
  · cases h with
    | insertWatch row hnew h =>
      rw [Db.insertWatch_eq_some h |>.2]
    | updateWatch => rfl

theorem yields_beside {α : Type} {p : M α} (h : Keeps Beside p) (w : World) :
    Yields p w (fun _ t => rowsOf t.db = rowsOf w.db) fun _ t => rowsOf t.db = rowsOf w.db :=
  h.yields (fun _ _ _ _ hop heffect => rowsOf_of_effect hop heffect) w

theorem keeps_epilogue (op : PlayerOp) : Keeps Beside (epilogue env player op) := by
  cases op with
  | unregister => exact keeps_announce player "unregister" none
  | _ => exact keeps_logAction (Or.inl rfl) _ _ _

/-- After the change the operation returns with it or raises after it. -/
theorem yields_epilogue {op : PlayerOp} {done : World}
    (h : Intended player (rowsOf w.db) (rowsOf done.db) op) :
    Yields (epilogue env player op) done
      (fun _ t => Intended player (rowsOf w.db) (rowsOf t.db) op)
      fun e t => rowsOf t.db = rowsOf w.db ∨ RaisedAfter env player op w e t := by
  have hkeeps : Keeps Beside (epilogue env player op) := keeps_epilogue op
  have hbeside := yields_beside hkeeps done
  refine .of_run (fun a t hrun => ?_) fun e t hrun => Or.inr ⟨?_, done, h, hrun⟩
  · rwa [hbeside.ok hrun]
  · rwa [hbeside.error hrun]

/-! The commits -/

theorem yields_commitRegister :
    Yields (MarketRepo.register env player) w
      (fun _ t => Intended player (rowsOf w.db) (rowsOf t.db) .register)
      fun _ t => rowsOf t.db = rowsOf w.db := by
  refine yields_statement (fun _ => rfl) fun a db note h => ?_
  obtain ⟨_, _, h⟩ := except_bind_eq_ok.mp h
  obtain ⟨db₁, hinsert, h⟩ := except_bind_eq_ok.mp h
  cases h
  unfold Intended rowsOf
  rw [Db.insertUser_eq_some (orRefused_eq_ok hinsert)]

/-- The cascades of a deleted user take the subscriptions that are deleted anyway. -/
theorem rowsOf_eraseUser (db : Db) :
    Intended player (rowsOf db) (rowsOf (MarketRepo.eraseUser db player)) .unregister := by
  have hsubs : (MarketRepo.eraseUser db player).subscriptions =
      deleteRows (fun s => s.player == player) db.subscriptions := by
    have hcascade : (cascade MarketSubscription.player MarketUser.player
        (fun u => u.player == player) db.users
          (deleteRows (fun s => s.player == player) db.subscriptions)).filter (fun _ => true) =
        (deleteRows (fun s => s.player == player) db.subscriptions).filter fun _ => true := by
      apply filter_cascade
      intro s hs _ u _ hu hkey
      have hother : s.player ≠ player := by simpa using (mem_deleteRows.mp hs).2
      have howner : u.player = player := by simpa using hu
      exact hother (hkey.symm.trans howner)
    rwa [List.filter_true, List.filter_true] at hcascade
  unfold Intended rowsOf
  rw [hsubs]
  rfl

/-- The rows are counted and then deleted; only the delete changes them. -/
theorem yields_counted {op : PlayerOp} {count : M ℕ} {call : Call} {delete : Db → Db}
    (hcount : Keeps Beside count)
    (hdelete : ∀ db, Intended player (rowsOf db) (rowsOf (delete db)) op) :
    Yields (do
      let n ← count
      statement env call fun _ db => .ok ((), delete db, [])
      return n) w
      (fun _ t => Intended player (rowsOf w.db) (rowsOf t.db) op)
      fun _ t => rowsOf t.db = rowsOf w.db := by
  refine Yields.bind (yields_beside hcount w) fun n w₁ hsame => ?_
  have hwrite : Yields (statement env call fun _ db => .ok ((), delete db, [])) w₁
      (fun _ t => Intended player (rowsOf w.db) (rowsOf t.db) op)
      fun _ t => rowsOf t.db = rowsOf w.db := by
    refine yields_statement (fun _ => hsame) fun a db note h => ?_
    cases h
    rw [← hsame]
    exact hdelete w₁.db
  exact hwrite.bind fun _ _ h => .pure h

theorem yields_commitUnregister :
    Yields (unregisterCascade env player) w
      (fun _ t => Intended player (rowsOf w.db) (rowsOf t.db) .unregister)
      fun _ t => rowsOf t.db = rowsOf w.db :=
  yields_counted (keeps_query Silent.nil) rowsOf_eraseUser

theorem yields_commitSubscribe {aoid : ℤ} :
    Yields (addSubscription env player aoid) w
      (fun _ t => Intended player (rowsOf w.db) (rowsOf t.db) (.subscribe aoid))
      fun _ t => rowsOf t.db = rowsOf w.db := by
  refine yields_statement (fun _ => rfl) fun a db note h => ?_
  obtain ⟨db₁, hinsert, h⟩ := except_bind_eq_ok.mp h
  cases h
  refine ⟨env.clock w.tick, ?_⟩
  unfold rowsOf
  rw [Db.insertSubscription_eq_some (orRefused_eq_ok hinsert)]

theorem yields_commitUnsubscribe {aoid : ℤ} :
    Yields (deleteSubscription env player aoid) w
      (fun _ t => Intended player (rowsOf w.db) (rowsOf t.db) (.unsubscribe aoid))
      fun _ t => rowsOf t.db = rowsOf w.db := by
  refine yields_statement (fun _ => rfl) fun a db note h => ?_
  obtain ⟨_, _, h⟩ := except_bind_eq_ok.mp h
  obtain ⟨_, _, h⟩ := except_bind_eq_ok.mp h
  cases h
  rfl

theorem yields_commitUnsubscribeAll :
    Yields (deleteAllSubscriptions env player) w
      (fun _ t => Intended player (rowsOf w.db) (rowsOf t.db) .unsubscribeAll)
      fun _ t => rowsOf t.db = rowsOf w.db :=
  yields_counted (keeps_countSubscriptions player) fun _ => rfl

/-! The operations -/

/-- An operation that has changed neither table so far makes its change and goes on to
the epilogue. -/
theorem yields_committed {α β : Type} {op : PlayerOp} {commit : M α} {w₁ : World} {f : α → M β}
    (hsame : rowsOf w₁.db = rowsOf w.db)
    (hcommit : Yields commit w₁ (fun _ t => Intended player (rowsOf w₁.db) (rowsOf t.db) op)
      fun _ t => rowsOf t.db = rowsOf w₁.db)
    (hf : ∀ a, ∃ b, f a = (epilogue env player op >>= fun _ => pure b)) :
    Yields (commit >>= f) w₁ (fun _ t => Intended player (rowsOf w.db) (rowsOf t.db) op)
      fun e t => rowsOf t.db = rowsOf w.db ∨ RaisedAfter env player op w e t := by
  rw [hsame] at hcommit
  refine Yields.bind (hcommit.mono (fun _ _ h => h) fun _ _ h => Or.inl h) fun a t h => ?_
  obtain ⟨b, hb⟩ := hf a
  rw [hb]
  exact (yields_epilogue h).bind fun _ _ h => .pure h

/-- A registration is made as intended or not at all, unless it was made and its
announcement raised. -/
theorem yields_register :
    Yields (perform env player .register) w
      (fun _ t => Intended player (rowsOf w.db) (rowsOf t.db) .register)
      fun e t => rowsOf t.db = rowsOf w.db ∨ RaisedAfter env player .register w e t := by
  show Yields (MarketService.register env player) w _ _
  refine Yields.bind ((yields_beside (keeps_isRegistered player) w).mono (fun _ _ h => h)
    fun _ _ h => Or.inl h) fun registered w₁ hsame => ?_
  cases registered with
  | true => exact .throw (Or.inl hsame)
  | false => exact yields_committed hsame yields_commitRegister fun _ =>
    ⟨(), (Coro.bind_pure _).symm⟩

theorem yields_unregister :
    Yields (perform env player .unregister) w
      (fun _ t => Intended player (rowsOf w.db) (rowsOf t.db) .unregister)
      fun e t => rowsOf t.db = rowsOf w.db ∨ RaisedAfter env player .unregister w e t := by
  refine Yields.bind (Q := fun _ t => Intended player (rowsOf w.db) (rowsOf t.db) .unregister)
    ?_ fun _ _ h => .pure h
  refine Yields.bind ((yields_beside (keeps_isRegistered player) w).mono (fun _ _ h => h)
    fun _ _ h => Or.inl h) fun registered w₁ hsame => ?_
  cases registered with
  | false => exact .throw (Or.inl hsame)
  | true => exact yields_committed hsame yields_commitUnregister fun count => ⟨count, rfl⟩

/-- A subscription is made as intended or not at all, unless it was made and the announcement of
it raised. -/
theorem yields_subscribe {aoid : ℤ} :
    Yields (perform env player (.subscribe aoid)) w
      (fun _ t => Intended player (rowsOf w.db) (rowsOf t.db) (.subscribe aoid))
      fun e t => rowsOf t.db = rowsOf w.db ∨ RaisedAfter env player (.subscribe aoid) w e t := by
  have hquiet : ∀ {α : Type} {p : M α} {w₁ : World}, Keeps Beside p → rowsOf w₁.db = rowsOf w.db →
      Yields p w₁ (fun _ t => rowsOf t.db = rowsOf w.db) fun e t =>
        rowsOf t.db = rowsOf w.db ∨ RaisedAfter env player (.subscribe aoid) w e t := by
    intro α p w₁ hkeeps hsame
    rw [← hsame]
    exact (yields_beside hkeeps w₁).mono (fun _ _ h => h) fun _ _ h => Or.inl h
  refine Yields.bind (Q := fun _ t =>
    Intended player (rowsOf w.db) (rowsOf t.db) (.subscribe aoid)) ?_ fun _ _ h => .pure h
  refine Yields.bind (hquiet (keeps_getItem aoid) rfl) fun item w₁ h₁ => ?_
  cases item with
  | none => exact .throw (Or.inl h₁)
  | some item =>
    refine Yields.bind (hquiet (keeps_isRegistered player) h₁) fun registered w₂ h₂ => ?_
    cases registered with
    | false =>
      refine Yields.bind (hquiet (keeps_logAction (Or.inl rfl) player "watch_denied" (some aoid)) h₂)
        fun _ w₃ h₃ => ?_
      exact .throw (Or.inl h₃)
    | true =>
      refine Yields.bind (hquiet (keeps_getSubscription player aoid) h₂) fun sub w₃ h₃ => ?_
      cases sub with
      | some sub => exact .throw (Or.inl h₃)
      | none =>
        refine Yields.bind (hquiet (keeps_getInt _) h₃) fun limit w₄ h₄ => ?_
        refine Yields.bind (hquiet (keeps_countSubscriptions player) h₄) fun count w₅ h₅ => ?_
        by_cases hlimit : limit ≤ count
        · rw [if_pos hlimit]
          exact .throw (Or.inl h₅)
        · rw [if_neg hlimit]
          refine Yields.bind (hquiet (keeps_watchItem (Or.inr ⟨aoid, rfl⟩) _ _ _ _) h₅)
            fun _ w₆ h₆ => ?_
          exact yields_committed h₆ yields_commitSubscribe fun _ => ⟨item, rfl⟩

theorem yields_unsubscribe {aoid : ℤ} :
    Yields (perform env player (.unsubscribe aoid)) w
      (fun _ t => Intended player (rowsOf w.db) (rowsOf t.db) (.unsubscribe aoid))
      fun e t => rowsOf t.db = rowsOf w.db ∨ RaisedAfter env player (.unsubscribe aoid) w e t := by
  refine Yields.bind (Q := fun _ t =>
    Intended player (rowsOf w.db) (rowsOf t.db) (.unsubscribe aoid)) ?_ fun _ _ h => .pure h
  exact yields_committed rfl yields_commitUnsubscribe fun deleted => ⟨deleted, rfl⟩

theorem yields_unsubscribeAll :
    Yields (perform env player .unsubscribeAll) w
      (fun _ t => Intended player (rowsOf w.db) (rowsOf t.db) .unsubscribeAll)
      fun e t => rowsOf t.db = rowsOf w.db ∨ RaisedAfter env player .unsubscribeAll w e t := by
  refine Yields.bind (Q := fun _ t =>
    Intended player (rowsOf w.db) (rowsOf t.db) .unsubscribeAll) ?_ fun _ _ h => .pure h
  exact yields_committed rfl yields_commitUnsubscribeAll fun count => ⟨count, rfl⟩

end Parts

/-- An operation that returns has made its change and no other; one that raises has changed
nothing, or has made its whole change and raised in the logging or announcing after it. -/
theorem player_operation_whole (env : Env) (player : String) (op : PlayerOp) (w : World) :
    let r := (perform env player op).run w
    (r.1 = .ok () → Intended player (rowsOf w.db) (rowsOf r.2.db) op) ∧
      ∀ e, r.1 = .error e →
        rowsOf r.2.db = rowsOf w.db ∨ RaisedAfter env player op w e r.2 := by
  intro r
  have hop : Yields (perform env player op) w
      (fun _ t => Intended player (rowsOf w.db) (rowsOf t.db) op)
      fun e t => rowsOf t.db = rowsOf w.db ∨ RaisedAfter env player op w e t := by
    cases op with
    | register => exact yields_register
    | unregister => exact yields_unregister
    | subscribe aoid => exact yields_subscribe
    | unsubscribe aoid => exact yields_unsubscribe
    | unsubscribeAll => exact yields_unsubscribeAll
  rcases hrun : r with ⟨e | a, t⟩
  · refine ⟨fun h => (nomatch h), fun e' he => ?_⟩
    rw [← Except.error.inj he]
    exact hop.error hrun
  · exact ⟨fun _ => hop.ok hrun, fun e he => (nomatch he)⟩

def channelLost : Env := { Env.calm with
  chat := { sendPrivgroup := some fun _ _ => .error .connection } }

def announcing : World where
  db := Db.empty.seedSetting { key := "LogToPrivateChannel", value := "true", valueType := .bool }

/-- Tara's registration raises, and she is registered. -/
theorem registered_and_raised :
    ¬ ∀ env player op w,
      let r := (perform env player op).run w
      (r.1 = .ok () → Intended player (rowsOf w.db) (rowsOf r.2.db) op) ∧
        ∀ e, r.1 = .error e → rowsOf r.2.db = rowsOf w.db := by
  intro h
  have hsame := (h channelLost "Tara" .register announcing).2 .connection rfl
  revert hsame
  decide +kernel

end AoMarket.PlayerOperations
