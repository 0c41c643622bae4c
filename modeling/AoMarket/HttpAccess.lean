import AoMarket.ChatWrites
import AoMarket.HttpRoutes

/-!
What a request without an admin's key can write. The guards of the routes are
read once, as what they do to the database and when they let a request pass;
behind them stand the players' own routes, which spare the rows of everybody else.
-/

namespace AoMarket.HttpAccess

open Coroutine Relational Models Database Environment AuthService Writes ServiceWrites HttpRoutes
open MarketRepo hiding register clearFilter logAction

/-! The rows a request must spare -/

/-- The rows of the players other than `own`; of all players when there is no `own`. -/
def others {ρ : Type} (own : Option String) (player : ρ → String) (rows : List ρ) : List ρ :=
  rows.filter fun r => decide (some (player r) ≠ own)

structure Spared (own : Option String) (db db' : Db) : Prop where
  settings : db'.settings = db.settings
  watch : ∀ r ∈ db.watch, ∃ r' ∈ db'.watch, r'.aoid = r.aoid ∧ r'.autoTracked = r.autoTracked
  subscriptions : others own MarketSubscription.player db'.subscriptions =
    others own MarketSubscription.player db.subscriptions
  alerts : others own MarketPendingAlert.player db'.pendingAlerts =
    others own MarketPendingAlert.player db.pendingAlerts
  apiKeys : others own ApiKey.player db'.apiKeys = others own ApiKey.player db.apiKeys
  users : ∃ added, others own MarketUser.player db'.users =
    others own MarketUser.player db.users ++ added

theorem Spared.refl (own : Option String) (db : Db) : Spared own db db where
  settings := rfl
  watch r hr := ⟨r, hr, rfl, rfl⟩
  subscriptions := rfl
  alerts := rfl
  apiKeys := rfl
  users := ⟨[], by simp⟩

theorem Spared.trans {own : Option String} {a b c : Db} (hab : Spared own a b)
    (hbc : Spared own b c) : Spared own a c where
  settings := hbc.settings.trans hab.settings
  watch r hr := by
    obtain ⟨r', hr', haoid, hauto⟩ := hab.watch r hr
    obtain ⟨r'', hr'', haoid', hauto'⟩ := hbc.watch r' hr'
    exact ⟨r'', hr'', haoid'.trans haoid, hauto'.trans hauto⟩
  subscriptions := hbc.subscriptions.trans hab.subscriptions
  alerts := hbc.alerts.trans hab.alerts
  apiKeys := hbc.apiKeys.trans hab.apiKeys
  users := by
    obtain ⟨l, hl⟩ := hab.users
    obtain ⟨m, hm⟩ := hbc.users
    exact ⟨l ++ m, by rw [hm, hl, List.append_assoc]⟩

section Others
variable {ρ : Type} {own : Option String} {player : ρ → String} {rows : List ρ}

theorem others_deleteRows {p : ρ → Bool} (h : ∀ r ∈ rows, p r = true → some (player r) = own) :
    others own player (deleteRows p rows) = others own player rows := by
  apply filter_deleteRows
  intro r hr hother
  by_contra hp
  have hown := h r hr (by simpa using hp)
  simp [hown] at hother

theorem others_updateRows {p : ρ → Bool} {f : ρ → ρ} (hf : ∀ r, player (f r) = player r)
    (h : ∀ r ∈ rows, p r = true → some (player r) = own) :
    others own player (updateRows p f rows) = others own player rows := by
  apply filter_updateRows
  · intro r hr hp
    simp [h r hr hp]
  · intro r hr hp
    simp [hf r, h r hr hp]

theorem others_append (row : ρ) :
    others own player (rows ++ [row]) =
      others own player rows ++ if some (player row) = own then [] else [row] := by
  unfold others
  rw [List.filter_append]
  by_cases h : some (player row) = own <;> simp [h]

theorem others_insert {row : ρ} (h : some (player row) = own) :
    others own player (rows ++ [row]) = others own player rows := by
  rw [others_append, if_pos h, List.append_nil]

/-- A cascade from the user's own row takes rows of that user only. -/
theorem others_cascade {q : String} (hown : own = some q) {users : List MarketUser} :
    others own player (cascade player MarketUser.player (fun u => u.player == q) users rows) =
      others own player rows := by
  apply filter_cascade
  intro c _ hother u _ hu heq
  have hplayer : u.player = q := by simpa using hu
  have hown' : some (player c) = own := by rw [← heq, hplayer, hown]
  simp [hown'] at hother

end Others

/-- The writes a player's own routes are made of, the upsert of a watch row aside. -/
def OwnWrite (own : Option String) : Write → Prop
  | .insertUser _ | .insertAction => True
  | .eraseUser q | .insertSubscription q _ | .deleteSubscription q _ | .deleteSubscriptions q
  | .updateFilter q _ => own = some q
  | _ => False

theorem spared_eraseUser {own : Option String} {q : String} (hown : own = some q) (db : Db) :
    Spared own db (eraseUser db q) where
  settings := rfl
  watch r hr := ⟨r, hr, rfl, rfl⟩
  subscriptions := by
    refine (others_cascade hown).trans (others_deleteRows ?_)
    intro s _ hs
    simpa [hown] using hs
  alerts := by
    apply others_deleteRows
    intro a _ ha
    simpa [hown] using ha
  apiKeys := others_cascade hown
  users := by
    refine ⟨[], (others_deleteRows ?_).trans (List.append_nil _).symm⟩
    intro u _ hu
    simpa [hown] using hu

theorem spared_of_subscriptions {own : Option String} {db db' : Db} {subs : List MarketSubscription}
    (h : db'.toTables = { db.toTables with subscriptions := subs })
    (hsubs : others own MarketSubscription.player subs =
      others own MarketSubscription.player db.subscriptions) : Spared own db db' where
  settings := by rw [h]
  watch r hr := ⟨r, by rw [h]; exact hr, rfl, rfl⟩
  subscriptions := by rw [h]; exact hsubs
  alerts := by rw [h]
  apiKeys := by rw [h]
  users := ⟨[], by rw [h]; simp⟩

theorem player_of_key {own : Option String} {player : String} {aoid : ℤ} (hown : own = some player)
    {s : MarketSubscription} (hs : (s.key == (player, aoid)) = true) : some s.player = own := by
  have hkey : s.key = (player, aoid) := by simpa using hs
  have hplayer : s.player = player := congrArg Prod.fst hkey
  rw [hown, hplayer]

/-- The writes of a player's own routes spare everybody else. -/
theorem spared_of_effect {own : Option String} {op : Write} {db db' : Db} {note : List Event}
    (h : Effect op db db' note) (hop : OwnWrite own op) : Spared own db db' := by
  cases h with
  | insertUser player h =>
    have htables := Db.insertUser_eq_some h
    exact {
      settings := by rw [htables]
      watch := fun r hr => ⟨r, by rw [htables]; exact hr, rfl, rfl⟩
      subscriptions := by rw [htables]
      alerts := by rw [htables]
      apiKeys := by rw [htables]
      users := ⟨_, by rw [htables]; exact others_append _⟩ }
  | eraseUser _ player => exact spared_eraseUser hop db
  | insertSubscription row h =>
    exact spared_of_subscriptions (Db.insertSubscription_eq_some h) (others_insert (Eq.symm hop))
  | deleteSubscription _ player aoid =>
    exact spared_of_subscriptions rfl (others_deleteRows fun s _ hs => player_of_key hop hs)
  | deleteSubscriptions _ player =>
    refine spared_of_subscriptions rfl (others_deleteRows ?_)
    intro s _ hs
    rw [hop]
    simpa using hs
  | updateFilter _ player aoid f hf =>
    have hplayer : ∀ r, (f r).player = r.player := fun r => congrArg Prod.fst (hf r)
    exact spared_of_subscriptions rfl
      (others_updateRows hplayer fun s _ hs => player_of_key hop hs)
  | insertAction _ row =>
    exact ⟨rfl, fun r hr => ⟨r, hr, rfl, rfl⟩, rfl, rfl, rfl, [], by simp [Db.insertAction]⟩
  | _ => exact hop.elim

/-! Handlers -/

section Handlers
variable {env : Env} {own : Option String}

def Spares (own : Option String) (w w' : World) : Prop := Spared own w.db w'.db

theorem spares_of_steps {w w' : World} (h : Steps (OwnWrite own) w w') : Spares own w w' := by
  obtain ⟨_, note, _, ⟨hdb, _⟩ | ⟨op, hop, heffect⟩⟩ := h
  · unfold Spares
    rw [hdb]
    exact Spared.refl own w.db
  · exact spared_of_effect heffect hop

theorem spares_of_keeps {α : Type} {p : M α} (h : Keeps (OwnWrite own) p) :
    p.Frames (Spares own) :=
  Coro.Frames.mono h fun _ _ => spares_of_steps

theorem spares_run {α : Type} {p : M α} (h : p.Frames (Spares own)) (w : World) :
    Spared own w.db (p.run w).2.db :=
  Coro.Frames.run (fun w => Spared.refl own w.db) (fun hab hbc => hab.trans hbc) h w

/-- A manual upsert leaves the flag of a row as it is. -/
theorem spares_upsertWatch (aoid : ℤ) (name : String) (ql : ℤ) (icon : Option ℤ) :
    (upsertWatch env aoid name ql icon false).Frames (Spares own) := by
  refine Coro.Frames.bind (spares_of_keeps (keeps_getWatch aoid)) fun _ => ?_
  refine Coro.Frames.bind ?_ fun _ => Coro.Frames.pure _
  apply frames_statement
  · exact fun w => Spared.refl own w.db
  · intro w a db' note hf
    obtain ⟨_, _, hf⟩ := except_bind_eq_ok.mp hf
    obtain ⟨_, _, hf⟩ := except_bind_eq_ok.mp hf
    obtain ⟨_, _, hf⟩ := except_bind_eq_ok.mp hf
    split at hf
    · obtain ⟨db₁, hdb, hf⟩ := except_bind_eq_ok.mp hf
      cases hf
      have htables := (Db.insertWatch_eq_some (orRefused_eq_ok hdb)).2
      exact {
        settings := by rw [htables]
        watch := fun r hr => ⟨r, by rw [htables]; exact List.mem_append_left _ hr, rfl, rfl⟩
        subscriptions := by rw [htables]
        alerts := by rw [htables]
        apiKeys := by rw [htables]
        users := ⟨[], by rw [htables]; simp⟩ }
    · cases hf
      refine ⟨rfl, ?_, rfl, rfl, rfl, [], by simp [Db.updateWatch]⟩
      intro r hr
      refine ⟨_, List.mem_map.mpr ⟨r, hr, rfl⟩, ?_⟩
      split
      · exact ⟨rfl, by simp⟩
      · exact ⟨rfl, rfl⟩

/-- Everything a subscription writes is the player's own, or the item's row. -/
theorem spares_subscribe {player : String} (hown : own = some player) (aoid : ℤ) :
    (MarketService.subscribe env player aoid).Frames (Spares own) := by
  apply frames_subscribe
  · intro w w' h
    apply spares_of_steps
    apply h.mono
    rintro op (rfl | rfl)
    · exact hown
    · exact trivial
  · intro name ql icon
    exact spares_upsertWatch aoid name ql icon

variable {A : Write → Prop}

theorem keeps_orUnknownSetting {key : String} {p : M Response} (h : Keeps A p) :
    Keeps A (orUnknownSetting env key p) := by
  apply Coro.Frames.handle h
  intro e
  cases e with
  | unknownSetting k => exact Coro.Frames.pure _
  | _ => exact Coro.Frames.throw _

theorem keeps_marketErrorHandler (e : PyErr) : Keeps A (marketErrorHandler e) := by
  cases e with
  | market e => exact Coro.Frames.pure _
  | _ => exact Coro.Frames.throw _

theorem keeps_statsOr (player detail : String) : Keeps A (statsOr env player detail) := by
  refine Coro.Frames.bind (keeps_userStats player) fun stats => ?_
  cases stats with
  | none => exact Coro.Frames.pure _
  | some s => exact Coro.Frames.pure _

theorem keeps_updateFilter {player : String} {aoid : ℤ} (h : A (.updateFilter player aoid))
    (priceSpec qlSpec : Option String) :
    Keeps A (updateFilter env player aoid priceSpec qlSpec) := by
  have hread : Keeps A (do
      let sub ← MarketService.getFilter env player aoid
      return Response.ok (.subscription sub)) :=
    Coro.Frames.bind (keeps_requireSubscription player aoid) fun _ => Coro.Frames.pure _
  have hql : ∀ spec, Keeps A (do
      MarketService.setQlFilter env player aoid spec
      let sub ← MarketService.getFilter env player aoid
      return Response.ok (.subscription sub)) :=
    fun spec => Coro.Frames.bind (keeps_setQlFilter h spec) fun _ => hread
  cases priceSpec with
  | none =>
    cases qlSpec with
    | none => exact hread
    | some ql => exact hql ql
  | some price =>
    refine Coro.Frames.bind (keeps_setPriceFilter h price) fun _ => ?_
    cases qlSpec with
    | none => exact hread
    | some ql => exact hql ql

/-- The open routes besides register write nothing. -/
theorem keeps_openHandler {app : App} {request : Request} (hguard : guardOf request = .anyone)
    (hregister : ∀ player, request ≠ .register player) : Keeps A (handler app request) := by
  have hnil : ∀ {α : Type} {call : Call} {f : ℕ → Except PyErr α},
      Keeps A (external call f) := keeps_external fun _ => Silent.nil
  cases request with
  | healthz =>
    refine Coro.Frames.bind ?_ fun dbOk => Coro.Frames.bind hnil fun now => Coro.Frames.pure _
    refine Coro.Frames.handle ?_ fun e => Coro.Frames.pure _
    exact Coro.Frames.bind (keeps_query Silent.nil) fun _ => Coro.Frames.pure _
  | readyz => exact Coro.Frames.pure _
  | listSettings => exact Coro.Frames.bind (keeps_query Silent.nil) fun _ => Coro.Frames.pure _
  | getSetting key =>
    exact keeps_orUnknownSetting (Coro.Frames.bind (keeps_get key) fun _ => Coro.Frames.pure _)
  | searchItems q ql limit offset => exact Coro.Frames.bind hnil fun _ => Coro.Frames.pure _
  | getItem aoid =>
    refine Coro.Frames.bind (keeps_getItem aoid) fun item => ?_
    cases item with
    | none => exact Coro.Frames.pure _
    | some i => exact Coro.Frames.pure _
  | listWatch limit offset auto =>
    exact Coro.Frames.bind (ChatWrites.keeps_listWatch _ _ _) fun _ => Coro.Frames.pure _
  | getWatch aoid =>
    refine Coro.Frames.bind (keeps_getWatch aoid) fun row => ?_
    cases row with
    | none => exact Coro.Frames.pure _
    | some r => exact Coro.Frames.pure _
  | getOrders aoid =>
    refine Coro.Frames.bind hnil fun orders => ?_
    cases orders with
    | none => exact Coro.Frames.pure _
    | some o => exact Coro.Frames.pure _
  | getPlayer player => exact Coro.Frames.bind (keeps_isRegistered _) fun _ => Coro.Frames.pure _
  | register player => exact absurd rfl (hregister player)
  | getWatchlist player =>
    exact Coro.Frames.bind (keeps_query Silent.nil) fun _ => Coro.Frames.pure _
  | getFilter player aoid =>
    exact Coro.Frames.bind (keeps_requireSubscription player aoid) fun _ => Coro.Frames.pure _
  | getStats player => exact keeps_statsOr _ _
  | adminGetStats player => exact keeps_statsOr _ _
  | statusSummary => exact Coro.Frames.bind keeps_statusSummary fun _ => Coro.Frames.pure _
  | statusDetails limit offset =>
    exact Coro.Frames.bind (ChatWrites.keeps_listWatch _ _ _) fun _ => Coro.Frames.pure _
  | botStatus => exact Coro.Frames.pure _
  | _ => cases hguard

/-- The handlers a player's key opens spare the rows of the other players. -/
theorem spares_playerHandler {app : App} {request : Request} {player : String}
    (hguard : guardOf request = .player player) (hown : own = some player) :
    (handler app request).Frames (Spares own) := by
  cases request with
  | unregister q confirm =>
    cases hguard
    cases confirm with
    | false => exact Coro.Frames.pure _
    | true =>
      exact Coro.Frames.bind (spares_of_keeps (keeps_unregister hown)) fun _ => Coro.Frames.pure _
  | subscribe q aoid =>
    cases hguard
    exact Coro.Frames.bind (spares_subscribe hown aoid) fun _ => Coro.Frames.pure _
  | unsubscribe q aoid =>
    cases hguard
    refine Coro.Frames.bind (spares_of_keeps (keeps_unsubscribe hown trivial)) fun deleted => ?_
    cases deleted with
    | false => exact Coro.Frames.pure _
    | true => exact Coro.Frames.pure _
  | bulkUnsubscribe q aoids =>
    cases hguard
    refine Coro.Frames.bind (spares_of_keeps ?_) fun _ => Coro.Frames.pure _
    exact keeps_unsubscribeBulk trivial fun _ _ => hown
  | unsubscribeAll q confirm =>
    cases hguard
    cases confirm with
    | false => exact Coro.Frames.pure _
    | true =>
      exact Coro.Frames.bind (spares_of_keeps (keeps_unsubscribeAll hown trivial))
        fun _ => Coro.Frames.pure _
  | updateFilter q aoid priceSpec qlSpec =>
    cases hguard
    exact spares_of_keeps (keeps_updateFilter hown _ _)
  | clearFilter q aoid =>
    cases hguard
    refine Coro.Frames.bind (spares_of_keeps (keeps_clearFilter hown)) fun _ => ?_
    refine Coro.Frames.bind (spares_of_keeps (keeps_requireSubscription _ _)) fun _ => ?_
    exact Coro.Frames.pure _
  | _ => cases hguard

end Handlers

/-! Guards -/

/-- The player of the un-revoked key with the token's hash. -/
def tokenOwner (env : Env) (db : Db) (raw : String) : Option String :=
  (lookup ApiKey.keyHash (env.hash raw) (db.apiKeys.filter activeKey)).map ApiKey.player

/-- The player whose key the header carries: a key that is not missing, unknown or revoked. -/
def keyOwner (env : Env) (db : Db) : Option String → Option String
  | none => none
  | some raw => if raw = "" then none else tokenOwner env db raw

def IsAdmin (env : Env) (db : Db) (player : String) : Prop :=
  (env.ownerCharacter ≠ "" ∧ player = env.ownerCharacter) ∨
    ∃ u ∈ db.users, u.player = player ∧ u.isAdmin = true

section Guards
variable {env : Env}

theorem isAdminPlayer_ok {player : String} {w w' : World} {b : Bool}
    (h : (isAdminPlayer env player).run w = (.ok b, w')) :
    b = true ↔ IsAdmin env w.db player := by
  unfold isAdminPlayer at h
  unfold IsAdmin
  by_cases howner : env.ownerCharacter ≠ "" ∧ player = env.ownerCharacter
  · rw [if_pos howner] at h
    obtain ⟨hb, _⟩ := Prod.mk.inj h
    cases hb
    exact iff_of_true rfl (Or.inl howner)
  · rw [if_neg howner] at h
    obtain ⟨user, w₁, hget, hrest⟩ := Coro.run_bind_eq_ok h
    obtain ⟨hread, _⟩ := run_query_eq_ok hget
    obtain ⟨_, _, hread⟩ := except_bind_eq_ok.mp hread
    cases hread
    cases hrow : lookup MarketUser.player player w.db.users with
    | none =>
      rw [hrow] at hrest
      cases hrest
      have habsent : ¬ ∃ u ∈ w.db.users, u.player = player ∧ u.isAdmin = true := by
        rintro ⟨u, hu, hplayer, _⟩
        exact lookup_eq_none.mp hrow (List.mem_map.mpr ⟨u, hu, hplayer⟩)
      exact iff_of_false (by simp) (not_or.mpr ⟨howner, habsent⟩)
    | some user =>
      rw [hrow] at hrest
      cases hrest
      obtain ⟨hmem, hplayer⟩ := (lookup_eq_some w.db.sound.user_key).mp hrow
      constructor
      · exact fun hadmin => Or.inr ⟨user, hmem, hplayer, hadmin⟩
      · rintro (hown | ⟨u, hu, hp, hadmin⟩)
        · exact absurd hown howner
        · rwa [w.db.sound.user_key.eq_of_mem hmem hu (hplayer.trans hp.symm)]

/-- Touching a key changes no row of another player. -/
theorem spared_touchLastUsed {k : ApiKey} {w : World} (hk : k ∈ w.db.apiKeys) :
    Spared (some k.player) w.db ((touchLastUsed env k.id).run w).2.db ∧
      ((touchLastUsed env k.id).run w).2.db.users = w.db.users := by
  have hcases := @run_statement_cases Unit env .touchKey
    (fun tick db => .ok ((), db.updateApiKeys (fun k' => k'.id == k.id)
      (fun k' => { k' with lastUsedAt := some (env.clock tick) }) fun _ => ⟨rfl, rfl, rfl⟩, [])) w
  unfold touchLastUsed
  rcases hcases with ⟨e, hrun⟩ | ⟨_, a, db, note, hf, hrun⟩
  · rw [hrun]
    exact ⟨Spared.refl _ w.db, rfl⟩
  · rw [hrun]
    cases hf
    refine ⟨⟨rfl, fun r hr => ⟨r, hr, rfl, rfl⟩, rfl, rfl, ?_, [], by simp [Db.updateApiKeys]⟩, rfl⟩
    apply others_updateRows
    · exact fun _ => rfl
    · intro k' hk' hid
      rw [w.db.sound.api_key.eq_of_mem hk' hk (by simpa using hid)]

def identify (env : Env) (k : ApiKey) : M (Option ApiKeyPrincipal) := do
  touchLastUsed env k.id
  let isAdmin ← isAdminPlayer env k.player
  return some { player := k.player, isAdmin := isAdmin }

/-- Identifying a key stamps that key only, and the principal it gives is the key's player. -/
theorem identify_cases {k : ApiKey} {w : World} (hk : k ∈ w.db.apiKeys) :
    Spared (some k.player) w.db ((identify env k).run w).2.db ∧
      ∀ principal, ((identify env k).run w).1 = .ok (some principal) →
        principal.player = k.player ∧
          (principal.isAdmin = true ↔ IsAdmin env w.db principal.player) := by
  obtain ⟨hspared, husers⟩ := @spared_touchLastUsed env k w hk
  unfold identify
  rcases htouch : (touchLastUsed env k.id).run w with ⟨e | u, w₁⟩
  · rw [htouch] at hspared
    rw [Coro.run_bind_error htouch]
    exact ⟨hspared, fun principal h => by cases h⟩
  · rw [htouch] at hspared husers
    rw [Coro.run_bind_ok htouch]
    rcases hadmin : (isAdminPlayer env k.player).run w₁ with ⟨e | b, w₂⟩
    · have hsame := Keeps.db_of_run (keeps_isAdminPlayer k.player) hadmin
      rw [Coro.run_bind_error hadmin]
      refine ⟨?_, fun principal h => by cases h⟩
      rw [hsame]
      exact hspared
    · have hsame := Keeps.db_of_run (keeps_isAdminPlayer k.player) hadmin
      rw [Coro.run_bind_ok hadmin]
      have hiff := isAdminPlayer_ok hadmin
      constructor
      · rw [Coro.run_pure, hsame]
        exact hspared
      · intro principal hp
        cases hp
        refine ⟨rfl, ?_⟩
        unfold IsAdmin at hiff ⊢
        rwa [husers] at hiff

/-- What authenticating a token comes to. -/
theorem authenticate_cases (raw : String) (w : World) :
    Spared (tokenOwner env w.db raw) w.db ((AuthService.authenticate env raw).run w).2.db ∧
      (tokenOwner env w.db raw = none →
        ((AuthService.authenticate env raw).run w).2.db = w.db) ∧
      ∀ principal, ((AuthService.authenticate env raw).run w).1 = .ok (some principal) →
        tokenOwner env w.db raw = some principal.player ∧
          (principal.isAdmin = true ↔ IsAdmin env w.db principal.player) := by
  unfold tokenOwner
  unfold AuthService.authenticate
  rcases hget : (getByHash env (env.hash raw)).run w with ⟨e | row, w₁⟩
  · have hdb := Keeps.db_of_run (keeps_query Silent.nil) hget
    rw [Coro.run_bind_error hget]
    refine ⟨?_, fun _ => hdb, fun principal h => by cases h⟩
    simp only [hdb]
    exact Spared.refl _ _
  · obtain ⟨hread, hw₁⟩ := run_query_eq_ok hget
    have hdb : w₁.db = w.db := by rw [hw₁]; rfl
    cases hread
    rw [Coro.run_bind_ok hget]
    cases hrow : lookup ApiKey.keyHash (env.hash raw) (w.db.apiKeys.filter activeKey) with
    | none =>
      refine ⟨?_, fun _ => hdb, fun principal h => by cases h⟩
      simp only [Option.map_none, Coro.run_pure, hdb]
      exact Spared.refl _ _
    | some k =>
      have hk : k ∈ w₁.db.apiKeys := by
        rw [hdb]
        exact (List.mem_filter.mp (List.mem_of_find?_eq_some hrow)).1
      obtain ⟨hspared, hprincipal⟩ := @identify_cases env k w₁ hk
      rw [hdb] at hspared hprincipal
      refine ⟨hspared, ?_, ?_⟩
      · intro hnone
        cases hnone
      · intro principal hp
        obtain ⟨hplayer, hadmin⟩ := hprincipal principal hp
        exact ⟨congrArg some hplayer.symm, hadmin⟩

/-- The same for the header. -/
theorem header_cases (xApiKey : Option String) (w : World) :
    Spared (keyOwner env w.db xApiKey) w.db ((HttpRoutes.authenticate env xApiKey).run w).2.db ∧
      (keyOwner env w.db xApiKey = none → ((HttpRoutes.authenticate env xApiKey).run w).2.db = w.db) ∧
      ∀ principal, ((HttpRoutes.authenticate env xApiKey).run w).1 = .ok (.ok principal) →
        keyOwner env w.db xApiKey = some principal.player ∧
          (principal.isAdmin = true ↔ IsAdmin env w.db principal.player) := by
  cases xApiKey with
  | none => exact ⟨Spared.refl _ w.db, fun _ => rfl, fun principal h => nomatch h⟩
  | some raw =>
    unfold HttpRoutes.authenticate
    by_cases hraw : raw = ""
    · simp only [if_pos hraw]
      exact ⟨Spared.refl _ w.db, fun _ => rfl, fun principal h => nomatch h⟩
    · simp only [if_neg hraw, keyOwner]
      obtain ⟨hspared, hsame, hprincipal⟩ := @authenticate_cases env raw w
      rcases hrun : (AuthService.authenticate env raw).run w with ⟨e | principal, w'⟩
      · rw [hrun] at hspared hsame
        erw [Coro.run_bind_error hrun]
        exact ⟨hspared, hsame, fun principal h => nomatch h⟩
      · rw [hrun] at hspared hsame hprincipal
        erw [Coro.run_bind_ok hrun]
        cases principal with
        | none => exact ⟨hspared, hsame, fun principal h => nomatch h⟩
        | some principal =>
          refine ⟨hspared, hsame, ?_⟩
          intro p hp
          cases hp
          exact hprincipal principal rfl

def verdict (guard : Guard) : Except Response ApiKeyPrincipal → Option Response
  | .error response => some response
  | .ok principal =>
    match guard with
    | .anyone => none
    | .admin => if !principal.isAdmin then some (.error 403 "admin API key required") else none
    | .player player =>
      if !principal.isAdmin && principal.player ≠ player then
        some (.error 403 "API key is not scoped to this player")
      else none

theorem checkGuard_eq {guard : Guard} (h : guard ≠ .anyone) (xApiKey : Option String) :
    checkGuard env xApiKey guard =
      (HttpRoutes.authenticate env xApiKey >>= fun r => pure (verdict guard r)) := by
  cases guard with
  | anyone => exact absurd rfl h
  | admin =>
    show (requireAdminKey env xApiKey >>= _) = _
    unfold requireAdminKey
    rw [Coro.bind_assoc]
    refine congrArg _ (funext fun r => ?_)
    cases r with
    | error response => rfl
    | ok principal =>
      by_cases hadmin : (!principal.isAdmin) = true
      · simp only [verdict, if_pos hadmin]
        rfl
      · simp only [verdict, if_neg hadmin]
        rfl
  | player player =>
    show (requirePlayerKey env xApiKey player >>= _) = _
    unfold requirePlayerKey
    rw [Coro.bind_assoc]
    refine congrArg _ (funext fun r => ?_)
    cases r with
    | error response => rfl
    | ok principal =>
      by_cases hother : (!principal.isAdmin && decide (principal.player ≠ player)) = true
      · simp only [verdict, if_pos hother]
        rfl
      · simp only [verdict, if_neg hother]
        rfl

theorem keeps_header {A : Write → Prop} (h : A .touchKey) (xApiKey : Option String) :
    Keeps A (HttpRoutes.authenticate env xApiKey) := by
  unfold HttpRoutes.authenticate
  cases xApiKey with
  | none => exact Coro.Frames.pure _
  | some raw =>
    by_cases hraw : raw = ""
    · simp only [if_pos hraw]
      exact Coro.Frames.pure _
    · simp only [if_neg hraw]
      refine Coro.Frames.bind (keeps_authenticate h raw) fun principal => ?_
      cases principal with
      | none => exact Coro.Frames.pure _
      | some p => exact Coro.Frames.pure _

theorem keeps_checkGuard {A : Write → Prop} (h : A .touchKey) (xApiKey : Option String)
    (guard : Guard) : Keeps A (checkGuard env xApiKey guard) := by
  by_cases hopen : guard = .anyone
  · rw [hopen]
    exact Coro.Frames.pure _
  · rw [checkGuard_eq hopen]
    exact Coro.Frames.bind (keeps_header h xApiKey) fun _ => Coro.Frames.pure _

/-- Whom a guard lets pass has a valid key that it accepts. -/
theorem owner_of_pass {xApiKey : Option String} {guard : Guard} {w : World}
    (hguard : guard ≠ .anyone) (hpass : ((checkGuard env xApiKey guard).run w).1 = .ok none) :
    ∃ p, keyOwner env w.db xApiKey = some p ∧ (IsAdmin env w.db p ∨ guard = .player p) := by
  obtain ⟨_, _, hprincipal⟩ := @header_cases env xApiKey w
  rw [checkGuard_eq hguard, Coro.run_bind_pure] at hpass
  rcases hrun : ((HttpRoutes.authenticate env xApiKey).run w).1 with e | response | principal
  · rw [hrun] at hpass
    cases hpass
  · rw [hrun] at hpass
    cases hpass
  · rw [hrun] at hpass
    obtain ⟨hown, hadmin⟩ := hprincipal principal hrun
    have hverdict : verdict guard (.ok principal) = none := by simpa [Except.map] using hpass
    refine ⟨principal.player, hown, ?_⟩
    by_cases hflag : principal.isAdmin = true
    · exact Or.inl (hadmin.mp hflag)
    · right
      have hfalse : principal.isAdmin = false := by simpa using hflag
      cases guard with
      | anyone => exact absurd rfl hguard
      | admin => simp [verdict, hfalse] at hverdict
      | player q =>
        have hq : principal.player = q := by simpa [verdict, hfalse] using hverdict
        rw [hq]

/-- Without an admin's key a guard lets the player's own routes pass at most. -/
theorem checkGuard_cases {xApiKey : Option String} {w : World}
    (hplain : ∀ p, keyOwner env w.db xApiKey = some p → ¬ IsAdmin env w.db p) (guard : Guard) :
    Spared (keyOwner env w.db xApiKey) w.db ((checkGuard env xApiKey guard).run w).2.db ∧
      (keyOwner env w.db xApiKey = none →
        ((checkGuard env xApiKey guard).run w).2.db = w.db) ∧
      (((checkGuard env xApiKey guard).run w).1 = .ok none →
        guard = .anyone ∨ ∃ p, keyOwner env w.db xApiKey = some p ∧ guard = .player p) := by
  by_cases hopen : guard = .anyone
  · rw [hopen]
    exact ⟨Spared.refl _ w.db, fun _ => rfl, fun _ => Or.inl rfl⟩
  obtain ⟨hspared, hsame, _⟩ := @header_cases env xApiKey w
  have hpass : ((checkGuard env xApiKey guard).run w).1 = .ok none →
      ∃ p, keyOwner env w.db xApiKey = some p ∧ guard = .player p := by
    intro h
    obtain ⟨p, hown, haccepted⟩ := owner_of_pass hopen h
    exact ⟨p, hown, haccepted.resolve_left (hplain p hown)⟩
  rw [checkGuard_eq hopen, Coro.run_bind_pure] at hpass ⊢
  exact ⟨hspared, hsame, fun h => Or.inr (hpass h)⟩

end Guards

/-! Requests -/

/-- A new user, and the ledger row of its registration unless that could not be written. -/
def AddsUser (player : String) (db db' : Db) : Prop :=
  player ∉ db.users.map MarketUser.player ∧ ∃ actions,
    db'.toTables = { db.toTables with
      users := db.users ++ [{ player := player, isAdmin := false }]
      userActions := db.userActions ++ actions } ∧
    (actions = [] ∨ ∃ now, actions =
      [{ player := player, action := "register", aoid := none, createdAt := now }])

/-- Logging an action adds one row to the ledger, or nothing. -/
theorem logAction_cases {env : Env} (player action : String) (aoid : Option ℤ) (w : World) :
    ∃ actions, ((MarketService.logAction env player action aoid).run w).2.db.toTables =
        { w.db.toTables with userActions := w.db.userActions ++ actions } ∧
      (actions = [] ∨ ∃ now, actions =
        [{ player := player, action := action, aoid := aoid, createdAt := now }]) := by
  unfold MarketService.logAction
  rw [run_bind_db fun _ => keeps_announce _ _ _]
  unfold MarketRepo.logAction
  rcases run_statement_cases w with ⟨e, hrun⟩ | ⟨_, u, db, note, hf, hrun⟩
  · rw [hrun]
    exact ⟨[], by simp [World.next], Or.inl rfl⟩
  · rw [hrun]
    obtain ⟨_, _, hf⟩ := except_bind_eq_ok.mp hf
    obtain ⟨_, _, hf⟩ := except_bind_eq_ok.mp hf
    cases hf
    exact ⟨_, rfl, Or.inr ⟨env.clock w.tick, rfl⟩⟩

/-- Registering adds the user with its ledger row, or changes nothing. -/
theorem register_cases {env : Env} (player : String) (w : World) :
    ((MarketService.register env player).run w).2.db = w.db ∨
      AddsUser player w.db ((MarketService.register env player).run w).2.db := by
  unfold MarketService.register
  rcases hasked : (isRegistered env player).run w with ⟨e | registered, w₁⟩
  · rw [Coro.run_bind_error hasked]
    exact Or.inl (Keeps.db_of_run (keeps_isRegistered player) hasked)
  have hdb₁ : w₁.db = w.db := Keeps.db_of_run (keeps_isRegistered player) hasked
  rw [Coro.run_bind_ok hasked]
  cases registered with
  | true => exact Or.inl hdb₁
  | false =>
    rw [← hdb₁]
    simp only [Bool.false_eq_true, if_false]
    rw [Coro.run_bind]
    unfold MarketRepo.register
    rcases run_statement_cases w₁ with ⟨e, hrun⟩ | ⟨_, u, db, note, hf, hrun⟩
    · rw [hrun]
      exact Or.inl rfl
    · rw [hrun]
      obtain ⟨_, _, hf⟩ := except_bind_eq_ok.mp hf
      obtain ⟨db₁, hinsert, hf⟩ := except_bind_eq_ok.mp hf
      cases hf
      have hnew := orRefused_eq_ok hinsert
      have htables := Db.insertUser_eq_some hnew
      have habsent : player ∉ w₁.db.users.map MarketUser.player := by
        unfold Db.insertUser at hnew
        split at hnew
        · next h => exact h
        · cases hnew
      right
      refine ⟨habsent, ?_⟩
      obtain ⟨actions, hactions, hrow⟩ := @logAction_cases env player "register" none
        { db := db, tick := w₁.tick + 1, log := w₁.log ++ [] }
      exact ⟨actions, by rw [hactions, htables], hrow⟩

/-- A request without an admin's key spares the settings, the tracked items with their
flags and every row of the players whose key it is not; without a valid key it writes
nothing at all, or registers a new user. -/
theorem request_spares_others {app : App} {xApiKey : Option String} {w : World}
    (hplain : ∀ p, keyOwner app.env w.db xApiKey = some p → ¬ IsAdmin app.env w.db p)
    (request : Request) :
    Spared (keyOwner app.env w.db xApiKey) w.db ((serve app xApiKey request).run w).2.db ∧
      (keyOwner app.env w.db xApiKey = none →
        ((serve app xApiKey request).run w).2.db = w.db ∨
          ∃ player, request = .register player ∧
            AddsUser player w.db ((serve app xApiKey request).run w).2.db) := by
  unfold serve
  rw [run_handle_db keeps_marketErrorHandler]
  obtain ⟨hspared, hsame, hpass⟩ := checkGuard_cases hplain (guardOf request)
  rcases hrun : (checkGuard app.env xApiKey (guardOf request)).run w with ⟨e | stopped, w₁⟩
  · rw [hrun] at hspared hsame
    rw [Coro.run_bind_error hrun]
    exact ⟨hspared, fun hnone => Or.inl (hsame hnone)⟩
  · rw [hrun] at hspared hsame hpass
    rw [Coro.run_bind_ok hrun]
    cases stopped with
    | some response => exact ⟨hspared, fun hnone => Or.inl (hsame hnone)⟩
    | none =>
      rcases hpass rfl with hopen | ⟨p, hown, hplayer⟩
      · by_cases hregister : ∃ player, request = .register player
        · obtain ⟨player, rfl⟩ := hregister
          have hw₁ : w₁ = w := (Prod.mk.inj hrun).2.symm
          subst hw₁
          have hkeeps : Keeps (OwnWrite (keyOwner app.env w₁.db xApiKey))
              (register app.env player) :=
            Coro.Frames.bind (keeps_register trivial trivial) fun _ => Coro.Frames.pure _
          refine ⟨spares_run (spares_of_keeps hkeeps) w₁, fun _ => ?_⟩
          show ((register app.env player).run w₁).2.db = w₁.db ∨ ∃ q, _ = _ ∧
            AddsUser q w₁.db ((register app.env player).run w₁).2.db
          unfold register
          rw [run_bind_db fun _ => Coro.Frames.pure _]
          rcases @register_cases app.env player w₁ with h | h
          · exact Or.inl h
          · exact Or.inr ⟨player, rfl, h⟩
        · have hquiet : Keeps (fun _ => False) (handler app request) :=
            keeps_openHandler hopen fun player h => hregister ⟨player, h⟩
          rw [hquiet.db_eq w₁]
          exact ⟨hspared, fun hnone => Or.inl (hsame hnone)⟩
      · refine ⟨hspared.trans (spares_run (spares_playerHandler hplayer hown) w₁), ?_⟩
        intro hnone
        rw [hnone] at hown
        cases hown

def taraWithKey : World where
  db := ((Db.empty.insertUser { player := "Tara", isAdmin := false }).bind fun db =>
    db.insertApiKey "Tara" "aomk_tara" "aomk_tara" 0).getD .empty

def calmApp : App where
  env := .calm
  searchPage _ _ _ _ _ := .ok ([], 0)
  bot := none

/-- Tara and Bob each have a key and watch the one item; Bob has an alert waiting. -/
def twoPlayers : World where
  db :=
    { toTables :=
        { users := [⟨"Tara", false⟩, ⟨"Bob", false⟩]
          watch := [⟨1, "Ring", 1, none, 0, none, false⟩]
          subscriptions := [{ player := "Tara", aoid := 1, createdAt := 0 },
            { player := "Bob", aoid := 1, createdAt := 0 }]
          pendingAlerts := [⟨0, "Bob", 1, "Ring", 0⟩]
          apiKeys := [⟨0, "Tara", "aomk_tara", "aomk_tara", 0, none, none⟩,
            ⟨1, "Bob", "aomk_bob", "aomk_bob", 0, none, none⟩]
          nextAlertId := 1
          nextKeyId := 2 }
      sound := by constructor <;> simp [Keyed, Refers, MarketSubscription.key] }

def emptied : World :=
  ((serve calmApp (some "aomk_tara") (.unsubscribeAll "Tara" true)).run twoPlayers).2

/-- Tara's key empties her own watchlist and leaves Bob's rows. -/
theorem tara_spares_others :
    emptied.db.subscriptions.map MarketSubscription.player = ["Bob"] ∧
      Spared (keyOwner .calm twoPlayers.db (some "aomk_tara")) twoPlayers.db emptied.db ∧
      (keyOwner .calm twoPlayers.db (some "aomk_tara") = none →
        emptied.db = twoPlayers.db ∨
        ∃ player, Request.unsubscribeAll "Tara" true = .register player ∧
          AddsUser player twoPlayers.db emptied.db) := by
  have hplain : ∀ p, keyOwner calmApp.env twoPlayers.db (some "aomk_tara") = some p →
      ¬ IsAdmin calmApp.env twoPlayers.db p := by
    intro p _
    rintro (⟨hempty, _⟩ | ⟨u, hu, _, hadmin⟩)
    · exact hempty rfl
    · have hplayers : ∀ u ∈ twoPlayers.db.users, u.isAdmin = false := by decide
      rw [hplayers u hu] at hadmin
      cases hadmin
  exact ⟨by decide +kernel, @request_spares_others calmApp (some "aomk_tara") twoPlayers hplain
    (.unsubscribeAll "Tara" true)⟩

end AoMarket.HttpAccess
