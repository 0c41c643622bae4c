import AoMarket.Models
import Mathlib.Data.List.Dedup

/-!
The statements the repositories issue, on databases that carry their
constraints. A delete of users or of watch rows cascades along the ON DELETE
CASCADE foreign keys of models.py; an insert that breaks a key or a reference
is refused (`none`), which the callers see as an IntegrityError.
-/

namespace AoMarket.Database

open Relational Models

/-- A database value carries the constraints the server enforces. -/
structure Db extends Tables where
  sound : toTables.Sound

namespace Db

def deleteUsers (db : Db) (p : MarketUser → Bool) : Db where
  toTables := { db.toTables with
    users := deleteRows p db.users
    subscriptions := cascade MarketSubscription.player MarketUser.player p db.users db.subscriptions
    apiKeys := cascade ApiKey.player MarketUser.player p db.users db.apiKeys }
  sound :=
    have hs := cascade_sublist MarketSubscription.player MarketUser.player p db.users
      db.subscriptions
    have hk := cascade_sublist ApiKey.player MarketUser.player p db.users db.apiKeys
    { db.sound with
      user_key := db.sound.user_key.delete p
      sub_key := db.sound.sub_key.sublist hs
      hash_key := db.sound.hash_key.sublist hk
      api_key := db.sound.api_key.sublist hk
      api_serial := fun k h => db.sound.api_serial k (hk.subset h)
      sub_player := db.sound.sub_player.cascade p
      sub_aoid := db.sound.sub_aoid.sublist hs
      api_player := db.sound.api_player.cascade p }

def deleteWatch (db : Db) (p : MarketWatch → Bool) : Db where
  toTables := { db.toTables with
    watch := deleteRows p db.watch
    subscriptions := cascade MarketSubscription.aoid MarketWatch.aoid p db.watch db.subscriptions
    history := cascade MarketHistory.aoid MarketWatch.aoid p db.watch db.history }
  sound :=
    have hs := cascade_sublist MarketSubscription.aoid MarketWatch.aoid p db.watch db.subscriptions
    { db.sound with
      watch_key := db.sound.watch_key.delete p
      sub_key := db.sound.sub_key.sublist hs
      sub_player := db.sound.sub_player.sublist hs
      sub_aoid := db.sound.sub_aoid.cascade p
      history_aoid := db.sound.history_aoid.cascade p }

/-- `session.add(MarketUser(player=player))`. -/
def insertUser (db : Db) (row : MarketUser) : Option Db :=
  if h : row.player ∉ db.users.map MarketUser.player then
    some {
      toTables := { db.toTables with users := db.users ++ [row] }
      sound := { db.sound with
        user_key := db.sound.user_key.insert h
        sub_player := db.sound.sub_player.insert_parent row
        api_player := db.sound.api_player.insert_parent row } }
  else none

def insertWatch (db : Db) (row : MarketWatch) : Option Db :=
  if h : row.aoid ∉ db.watch.map MarketWatch.aoid then
    some {
      toTables := { db.toTables with watch := db.watch ++ [row] }
      sound := { db.sound with
        watch_key := db.sound.watch_key.insert h
        sub_aoid := db.sound.sub_aoid.insert_parent row
        history_aoid := db.sound.history_aoid.insert_parent row } }
  else none

def updateWatch (db : Db) (p : MarketWatch → Bool) (f : MarketWatch → MarketWatch)
    (hf : ∀ r, (f r).aoid = r.aoid) : Db where
  toTables := { db.toTables with watch := updateRows p f db.watch }
  sound := { db.sound with
    watch_key := db.sound.watch_key.update p hf
    sub_aoid := db.sound.sub_aoid.update_parent p hf
    history_aoid := db.sound.history_aoid.update_parent p hf }

def insertHistory (db : Db) (row : MarketHistory) : Option Db :=
  if h : row.aoid ∈ db.watch.map MarketWatch.aoid then
    some {
      toTables := { db.toTables with history := db.history ++ [row] }
      sound := { db.sound with history_aoid := db.sound.history_aoid.insert h } }
  else none

def deleteHistory (db : Db) (p : MarketHistory → Bool) : Db where
  toTables := { db.toTables with history := deleteRows p db.history }
  sound := { db.sound with
    history_aoid := db.sound.history_aoid.sublist (deleteRows_sublist p _) }

def insertSubscription (db : Db) (row : MarketSubscription) : Option Db :=
  if h : row.key ∉ db.subscriptions.map MarketSubscription.key ∧
      row.player ∈ db.users.map MarketUser.player ∧
      row.aoid ∈ db.watch.map MarketWatch.aoid then
    some {
      toTables := { db.toTables with subscriptions := db.subscriptions ++ [row] }
      sound := { db.sound with
        sub_key := db.sound.sub_key.insert h.1
        sub_player := db.sound.sub_player.insert h.2.1
        sub_aoid := db.sound.sub_aoid.insert h.2.2 } }
  else none

def deleteSubscriptions (db : Db) (p : MarketSubscription → Bool) : Db where
  toTables := { db.toTables with subscriptions := deleteRows p db.subscriptions }
  sound := { db.sound with
    sub_key := db.sound.sub_key.delete p
    sub_player := db.sound.sub_player.sublist (deleteRows_sublist p _)
    sub_aoid := db.sound.sub_aoid.sublist (deleteRows_sublist p _) }

def updateSubscriptions (db : Db) (p : MarketSubscription → Bool)
    (f : MarketSubscription → MarketSubscription) (hf : ∀ r, (f r).key = r.key) : Db where
  toTables := { db.toTables with subscriptions := updateRows p f db.subscriptions }
  sound := { db.sound with
    sub_key := db.sound.sub_key.update p hf
    sub_player := db.sound.sub_player.update p fun r => congrArg Prod.fst (hf r)
    sub_aoid := db.sound.sub_aoid.update p fun r => congrArg Prod.snd (hf r) }

/-- Delete the rows of `aoid`, then `ON CONFLICT DO NOTHING` inserts of the new ones. -/
def replaceSeen (db : Db) (aoid : ℤ) (fingerprints : List String) : Db where
  toTables := { db.toTables with
    seenOrders := deleteRows (fun r => r.aoid == aoid) db.seenOrders ++
      fingerprints.dedup.map fun fp => { aoid := aoid, fingerprint := fp } }
  sound := { db.sound with
    seen_key := by
      refine List.Nodup.append (db.sound.seen_key.sublist (deleteRows_sublist _ _)) ?_ ?_
      · exact (List.nodup_dedup _).map fun a b h => congrArg MarketSeenOrder.fingerprint h
      · intro r hold hnew
        obtain ⟨fp, _, rfl⟩ := List.mem_map.mp hnew
        simp [mem_deleteRows] at hold }

def insertAlert (db : Db) (player : String) (aoid : ℤ) (message : String) (now : ℤ) : Db where
  toTables := { db.toTables with
    pendingAlerts := db.pendingAlerts ++
      [{ id := db.nextAlertId, player := player, aoid := aoid, message := message,
         createdAt := now }]
    nextAlertId := db.nextAlertId + 1 }
  sound := { db.sound with
    alert_key := db.sound.alert_key.insert (by
      intro h
      obtain ⟨a, ha, hid⟩ := List.mem_map.mp h
      have := db.sound.alert_serial a ha
      simp only at hid
      omega)
    alert_serial := by
      intro a ha
      rcases List.mem_append.mp ha with hold | hnew
      · have := db.sound.alert_serial a hold
        simp only
        omega
      · rw [List.mem_singleton.mp hnew]
        simp }

def deleteAlerts (db : Db) (p : MarketPendingAlert → Bool) : Db where
  toTables := { db.toTables with pendingAlerts := deleteRows p db.pendingAlerts }
  sound := { db.sound with
    alert_key := db.sound.alert_key.delete p
    alert_serial := fun a h => db.sound.alert_serial a ((deleteRows_sublist p _).subset h) }

def insertAction (db : Db) (row : MarketUserAction) : Db where
  toTables := { db.toTables with userActions := db.userActions ++ [row] }
  sound := { db.sound with }

def deleteActions (db : Db) (p : MarketUserAction → Bool) : Db where
  toTables := { db.toTables with userActions := deleteRows p db.userActions }
  sound := { db.sound with }

def insertApiKey (db : Db) (player keyHash keyPrefix : String) (now : ℤ) : Option Db :=
  if h : player ∈ db.users.map MarketUser.player ∧ keyHash ∉ db.apiKeys.map ApiKey.keyHash then
    some {
      toTables := { db.toTables with
        apiKeys := db.apiKeys ++
          [{ id := db.nextKeyId, player := player, keyHash := keyHash, keyPrefix := keyPrefix,
             createdAt := now }]
        nextKeyId := db.nextKeyId + 1 }
      sound := { db.sound with
        hash_key := db.sound.hash_key.insert h.2
        api_key := db.sound.api_key.insert (by
          intro hmem
          obtain ⟨k, hk, hid⟩ := List.mem_map.mp hmem
          have := db.sound.api_serial k hk
          simp only at hid
          omega)
        api_serial := by
          intro k hk
          rcases List.mem_append.mp hk with hold | hnew
          · have := db.sound.api_serial k hold
            simp only
            omega
          · rw [List.mem_singleton.mp hnew]
            simp
        api_player := db.sound.api_player.insert h.1 } }
  else none

def updateApiKeys (db : Db) (p : ApiKey → Bool) (f : ApiKey → ApiKey)
    (hf : ∀ k, (f k).id = k.id ∧ (f k).player = k.player ∧ (f k).keyHash = k.keyHash) : Db where
  toTables := { db.toTables with apiKeys := updateRows p f db.apiKeys }
  sound := { db.sound with
    hash_key := db.sound.hash_key.update p fun k => (hf k).2.2
    api_key := db.sound.api_key.update p fun k => (hf k).1
    api_serial := by
      intro k hk
      obtain ⟨k', hk', rfl⟩ := List.mem_map.mp hk
      split
      · rw [(hf k').1]
        exact db.sound.api_serial k' hk'
      · exact db.sound.api_serial k' hk'
    api_player := db.sound.api_player.update p fun k => (hf k).2.1 }

def deleteBackoff (db : Db) (p : AodbLookupBackoff → Bool) : Db where
  toTables := { db.toTables with lookupBackoff := deleteRows p db.lookupBackoff }
  sound := { db.sound with backoff_key := db.sound.backoff_key.delete p }

/-- `INSERT ... ON CONFLICT (aoid) DO UPDATE`. -/
def upsertBackoff (db : Db) (row : AodbLookupBackoff) : Db where
  toTables := { db.toTables with
    lookupBackoff :=
      if row.aoid ∈ db.lookupBackoff.map AodbLookupBackoff.aoid then
        updateRows (fun r => r.aoid == row.aoid)
          (fun r => { row with aoid := r.aoid }) db.lookupBackoff
      else db.lookupBackoff ++ [row] }
  sound := { db.sound with
    backoff_key := by
      simp only
      split
      · exact db.sound.backoff_key.update _ fun _ => rfl
      · next h => exact db.sound.backoff_key.insert h }

/-- `INSERT ... ON CONFLICT (key) DO NOTHING`. -/
def seedSetting (db : Db) (row : Setting) : Db where
  toTables := { db.toTables with
    settings :=
      if row.key ∈ db.settings.map Setting.key then db.settings else db.settings ++ [row] }
  sound := { db.sound with
    setting_key := by
      simp only
      split
      · exact db.sound.setting_key
      · next h => exact db.sound.setting_key.insert h }

def updateSetting (db : Db) (key value : String) : Db where
  toTables := { db.toTables with
    settings := updateRows (fun r => r.key == key) (fun r => { r with value := value }) db.settings }
  sound := { db.sound with setting_key := db.sound.setting_key.update _ fun _ => rfl }

/-! What an accepted insert left behind -/

theorem insertUser_eq_some {db db' : Db} {row : MarketUser} (h : db.insertUser row = some db') :
    db'.toTables = { db.toTables with users := db.users ++ [row] } := by
  unfold insertUser at h
  split at h
  · cases h
    rfl
  · cases h

theorem insertWatch_eq_some {db db' : Db} {row : MarketWatch} (h : db.insertWatch row = some db') :
    row.aoid ∉ db.watch.map MarketWatch.aoid ∧
      db'.toTables = { db.toTables with watch := db.watch ++ [row] } := by
  unfold insertWatch at h
  split at h
  · next hnew =>
    cases h
    exact ⟨hnew, rfl⟩
  · cases h

theorem insertHistory_eq_some {db db' : Db} {row : MarketHistory}
    (h : db.insertHistory row = some db') :
    db'.toTables = { db.toTables with history := db.history ++ [row] } := by
  unfold insertHistory at h
  split at h
  · cases h
    rfl
  · cases h

theorem aoids_updateWatch (db : Db) (p : MarketWatch → Bool) (f : MarketWatch → MarketWatch)
    (hf : ∀ r, (f r).aoid = r.aoid) :
    (db.updateWatch p f hf).watch.map MarketWatch.aoid = db.watch.map MarketWatch.aoid :=
  map_updateRows p hf

/-- An insert is accepted exactly if its condition holds. -/
theorem accepted_iff {c : Prop} [Decidable c] {f : c → Db} :
    (∃ db, (if h : c then some (f h) else none) = some db) ↔ c := by
  split
  · next h => exact iff_of_true ⟨f h, rfl⟩ h
  · next h => exact iff_of_false (fun ⟨_, hnone⟩ => nomatch hnone) h

theorem insertUser_accepts {db : Db} {row : MarketUser} :
    (∃ db', db.insertUser row = some db') ↔ row.player ∉ db.users.map MarketUser.player :=
  accepted_iff

theorem insertWatch_accepts {db : Db} {row : MarketWatch} :
    (∃ db', db.insertWatch row = some db') ↔ row.aoid ∉ db.watch.map MarketWatch.aoid :=
  accepted_iff

theorem insertHistory_accepts {db : Db} {row : MarketHistory} :
    (∃ db', db.insertHistory row = some db') ↔ row.aoid ∈ db.watch.map MarketWatch.aoid :=
  accepted_iff

theorem insertSubscription_accepts {db : Db} {row : MarketSubscription} :
    (∃ db', db.insertSubscription row = some db') ↔
      row.key ∉ db.subscriptions.map MarketSubscription.key ∧
        row.player ∈ db.users.map MarketUser.player ∧ row.aoid ∈ db.watch.map MarketWatch.aoid :=
  accepted_iff

theorem insertApiKey_accepts {db : Db} {player keyHash keyPrefix : String} {now : ℤ} :
    (∃ db', db.insertApiKey player keyHash keyPrefix now = some db') ↔
      player ∈ db.users.map MarketUser.player ∧ keyHash ∉ db.apiKeys.map ApiKey.keyHash :=
  accepted_iff

theorem insertSubscription_eq_some {db db' : Db} {row : MarketSubscription}
    (h : db.insertSubscription row = some db') :
    db'.toTables = { db.toTables with subscriptions := db.subscriptions ++ [row] } := by
  unfold insertSubscription at h
  split at h
  · cases h
    rfl
  · cases h

theorem insertApiKey_eq_some {db db' : Db} {player keyHash keyPrefix : String} {now : ℤ}
    (h : db.insertApiKey player keyHash keyPrefix now = some db') :
    db'.toTables = { db.toTables with
      apiKeys := db.apiKeys ++
        [{ id := db.nextKeyId, player := player, keyHash := keyHash, keyPrefix := keyPrefix,
           createdAt := now }]
      nextKeyId := db.nextKeyId + 1 } := by
  unfold insertApiKey at h
  split at h
  · cases h
    rfl
  · cases h

/-- Seeding settings changes the settings only. -/
theorem seedSettings_tables (rows : List Setting) (db : Db) :
    ∃ settings, (rows.foldl seedSetting db).toTables = { db.toTables with settings := settings } := by
  induction rows generalizing db with
  | nil => exact ⟨db.settings, rfl⟩
  | cons row rest ih =>
    obtain ⟨settings, h⟩ := ih (db.seedSetting row)
    exact ⟨settings, h⟩

def empty : Db where
  toTables := {}
  sound := by constructor <;> simp [Keyed, Refers]

end Db
end AoMarket.Database
