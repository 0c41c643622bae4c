import AoMarket.ChatIsolation
import AoMarket.KeyHistory
import AoMarket.ServiceCalls
import AoMarket.SettingRepair

/-!
Unregistering a player. One commit deletes the player's rows, the keys through
their reference to the user, and what follows it only announces: logging the action
would write a row of the player again.
-/

namespace AoMarket.Unregistration

open Coroutine Outcomes Relational Models Database Environment SettingsRepo MarketService
open Writes ServiceWrites ChatIsolation KeyHistory SettingTypes SettingRepair
open MarketRepo hiding register logAction
open HttpRoutes (App)

/-- Some row has the player in its player column. -/
def Mentioned (player : String) (db : Db) : Prop :=
  player ∈ db.users.map MarketUser.player ∨
    player ∈ db.subscriptions.map MarketSubscription.player ∨
    player ∈ db.pendingAlerts.map MarketPendingAlert.player ∨
    player ∈ db.userActions.map MarketUserAction.player ∨
    player ∈ db.apiKeys.map ApiKey.player

/-- The player's rows are gone, and every other row is as it was. -/
structure Erased (player : String) (db db' : Db) : Prop where
  gone : ¬ Mentioned player db'
  others : OthersKept player db db'
  otherActions : (db'.userActions.filter fun r => r.player != player) =
    db.userActions.filter fun r => r.player != player
  watch : db'.watch = db.watch
  history : db'.history = db.history
  seenOrders : db'.seenOrders = db.seenOrders
  settings : db'.settings = db.settings
  lookupBackoff : db'.lookupBackoff = db.lookupBackoff

section Commit
variable {ρ : Type} {key : ρ → String} {player : String}

theorem not_mem_map_deleteRows (rows : List ρ) :
    player ∉ (deleteRows (fun r => key r == player) rows).map key := by
  intro hmem
  obtain ⟨r, hr, hkey⟩ := List.mem_map.mp hmem
  have hother : (key r == player) = false := (mem_deleteRows.mp hr).2
  simp [hkey] at hother

/-- What refers to the users cannot refer to one who is gone. -/
theorem not_mem_of_refers {children : List ρ} {users : List MarketUser}
    (h : Refers key children MarketUser.player users)
    (hgone : player ∉ users.map MarketUser.player) : player ∉ children.map key := by
  intro hmem
  obtain ⟨c, hc, hkey⟩ := List.mem_map.mp hmem
  have hparent := h c hc
  rw [hkey] at hparent
  exact hgone hparent

/-- The cascade erases every row of the player, and no other row. -/
theorem eraseUser_erased (player : String) (db : Db) : Erased player db (eraseUser db player) where
  gone := by
    have husers : player ∉ (eraseUser db player).users.map MarketUser.player :=
      not_mem_map_deleteRows db.users
    rintro (huser | hsub | halert | haction | hkey)
    · exact husers huser
    · exact not_mem_of_refers (eraseUser db player).sound.sub_player husers hsub
    · exact not_mem_map_deleteRows db.pendingAlerts halert
    · exact not_mem_map_deleteRows db.userActions haction
    · exact not_mem_of_refers (eraseUser db player).sound.api_player husers hkey
  others := eraseUser_othersKept player db
  otherActions := by
    apply filter_deleteRows
    intro r _ hr
    simpa using hr
  watch := rfl
  history := rfl
  seenOrders := rfl
  settings := rfl
  lookupBackoff := rfl

end Commit

/-- What unregistering needs from its surroundings at a tick: the server is up and takes the
player's name, and the private channel takes the announcement. -/
structure Unhindered (env : Env) (player : String) (tick : ℕ) : Prop where
  up : ∀ t, tick ≤ t → env.dbFault t = none
  name : env.storable player = true
  privgroup : ∀ send ∈ env.chat.sendPrivgroup, ∀ t message, (send t message).isOk = true

section Runs
variable {app : App} {env : Env} {player : String} {w : World}

/-- A run that returns has erased the player, and one that raises has done so or nothing. -/
theorem yields_unregister (w : World) :
    Yields (unregister env player) w
      (fun removed w' => removed = (subscriptionsOf w.db player).length ∧ Erased player w.db w'.db)
      fun _ w' => w'.db = w.db ∨ Erased player w.db w'.db := by
  have hquiet : ∀ {α : Type} {p : M α} (w₁ : World), Keeps (fun _ => False) p →
      Yields p w₁ (fun _ t => t.db = w₁.db) fun _ t => t.db = w₁.db :=
    fun w₁ hkeeps => hkeeps.yields (f := fun db => db) (fun _ _ _ _ hop _ => hop.elim) w₁
  refine Yields.bind ((hquiet w (keeps_isRegistered player)).mono (fun _ _ h => h)
    fun _ _ h => Or.inl h) fun registered w₁ h₁ => ?_
  cases registered with
  | false => exact Yields.throw (Or.inl h₁)
  | true =>
    have hcount : Yields (query env .countUserRows fun _ db => do
        text env player
        return (subscriptionsOf db player).length) w₁
        (fun count t => count = (subscriptionsOf w.db player).length ∧ t.db = w.db)
        fun _ t => t.db = w.db ∨ Erased player w.db t.db := by
      refine yields_query_of (fun _ _ => Or.inl h₁) fun count _ hf => ⟨?_, h₁⟩
      obtain ⟨_, _, hf⟩ := except_bind_eq_ok.mp hf
      rw [← Except.ok.inj hf, h₁]
    have herase : Yields (unregisterCascade env player) w₁
        (fun removed t => removed = (subscriptionsOf w.db player).length ∧ Erased player w.db t.db)
        fun _ t => t.db = w.db ∨ Erased player w.db t.db := by
      refine hcount.bind fun count w₂ h₂ => ?_
      refine Yields.bind (Q := fun _ t => Erased player w.db t.db) ?_
        fun _ _ herased => Yields.pure ⟨h₂.1, herased⟩
      refine yields_statement (fun _ => Or.inl h₂.2) fun _ db note hf => ?_
      cases hf
      rw [← h₂.2]
      exact eraseUser_erased player w₂.db
    refine herase.bind fun removed w₃ h₃ => ?_
    refine Yields.bind ((hquiet w₃ (keeps_announce player "unregister" none)).mono
      (fun _ _ h => h) fun _ t h => Or.inr (h ▸ h₃.2)) fun _ w₄ h₄ => ?_
    exact Yields.pure ⟨h₃.1, h₄ ▸ h₃.2⟩

/-- With nothing in the way a registered player is unregistered. -/
theorem returns_unregister (free : Unhindered env player w.tick) {b : Bool}
    (hread : readSetting env w.db "LogToPrivateChannel" = .ok (.bool b))
    (hregistered : player ∈ w.db.users.map MarketUser.player) :
    Returns (unregister env player) w fun _ _ => True := by
  have hname : text env player = .ok () := if_pos free.name
  have hsome : (lookup MarketUser.player player w.db.users).isSome = true := by
    rw [Option.isSome_iff_ne_none]
    exact mt lookup_eq_none.mp (not_not_intro hregistered)
  have hup : ∀ t, w.next.tick ≤ t → env.dbFault t = none := by
    intro t ht
    exact free.up t ((Nat.le_succ _).trans ht)
  unfold MarketService.unregister
  rw [Returns, Yields, Coro.run_bind_ok (run_isRegistered (free.up _ (le_refl _)) hname), hsome]
  simp only [Bool.not_true, Bool.false_eq_true, if_false]
  rw [Coro.run_bind_ok (run_unregisterCascade hup hname)]
  have hannounce : Returns (announce env player "unregister" none)
      { db := eraseUser w.db player, tick := w.tick + 3, log := w.log } fun _ _ => True := by
    have hno : ∀ a ∈ (none : Option ℤ), ∀ t, (env.getItem t a).isOk = true := by simp
    have hannounced := @ServiceCalls.returns_announce_of player
      { db := eraseUser w.db player, tick := w.tick + 3, log := w.log } env none b
      (free.up _ (by simp)) hread hno free.privgroup "unregister"
    exact hannounced.mono (fun _ _ _ => trivial) fun _ _ h => h
  exact hannounce.bind fun _ _ _ => Yields.pure trivial

/-- From any state of a seeded bot, unregistering a registered player returns the number of the
player's subscriptions and erases the player, and no one else. A run that something hinders
has erased the player or done nothing. -/
theorem unregister_erases (h : SettingsHistory app w) (hseeded : Seeded w.db.settings)
    (hregistered : player ∈ w.db.users.map MarketUser.player) :
    (Unhindered app.env player w.tick → ∃ w', (unregister app.env player).run w =
      (.ok (subscriptionsOf w.db player).length, w') ∧ Erased player w.db w'.db) ∧
    ∀ r w', (unregister app.env player).run w = (r, w') →
      w'.db = w.db ∨ Erased player w.db w'.db := by
  have hends := @yields_unregister app.env player w
  constructor
  · intro free
    have hread : ∃ b, readSetting app.env w.db "LogToPrivateChannel" = .ok (.bool b) :=
      h.reads_bool hseeded (by decide)
    obtain ⟨b, hread⟩ := hread
    have hreturns := returns_unregister free hread hregistered
    rcases hrun : (unregister app.env player).run w with ⟨e | removed, w'⟩
    · exact (hreturns.error hrun).elim
    · obtain ⟨hremoved, herased⟩ := hends.ok hrun
      exact ⟨w', by rw [hremoved], herased⟩
  · intro r w' hrun
    cases r with
    | error e => exact hends.error hrun
    | ok removed => exact Or.inr (hends.ok hrun).2

/-- Alice and Bob watch item 7; Bob has an alert waiting, an action logged and a key. -/
def busyWorld : World where
  db :=
    { toTables :=
        { users := [⟨"alice", false⟩, ⟨"bob", false⟩]
          watch := [⟨7, "Ring", 10, none, 0, none, false⟩]
          subscriptions := [{ player := "alice", aoid := 7, createdAt := 0 },
            { player := "bob", aoid := 7, createdAt := 0 }]
          pendingAlerts := [⟨0, "bob", 7, "1 new order", 0⟩]
          userActions := [⟨"bob", "watch", some 7, 0⟩]
          apiKeys := [⟨0, "bob", "aomk_bob", "aomk_bob", 0, none, none⟩]
          settings := seededWorld.db.settings
          nextAlertId := 1
          nextKeyId := 1 }
      sound :=
        { setting_key := seededWorld.db.sound.setting_key
          user_key := by simp [Keyed]
          watch_key := by simp [Keyed]
          sub_key := by simp [Keyed, MarketSubscription.key]
          seen_key := by simp
          alert_key := by simp [Keyed]
          alert_serial := by simp
          hash_key := by simp [Keyed]
          api_key := by simp [Keyed]
          api_serial := by simp
          backoff_key := by simp [Keyed]
          sub_player := by simp [Refers]
          sub_aoid := by simp [Refers]
          history_aoid := by simp [Refers]
          api_player := by simp [Refers] } }

theorem bob_erased :
    ∃ w', (unregister ownedApp.env "bob").run busyWorld = (.ok 1, w') ∧
      Erased "bob" busyWorld.db w'.db := by
  have hseeded : Seeded busyWorld.db.settings := seededWorld_run.typed.2
  have hhistory : SettingsHistory ownedApp busyWorld :=
    .elsewhere (.seed (.empty (w := ownerWithKey) rfl)) rfl
  have herases := @unregister_erases ownedApp "bob" busyWorld hhistory hseeded (by simp [busyWorld])
  exact herases.1 ⟨fun _ _ => rfl, by decide +kernel, fun _ h => by cases h⟩

end Runs

end AoMarket.Unregistration
