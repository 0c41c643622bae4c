import AoMarket.ChatIsolation
import AoMarket.Concurrency

/-!
What no schedule of tasks undoes. Nobody becomes an admin, and until a player asks to be
unregistered the player's row stays, the log of the player's actions only grows, the keys
stay on record and a revoked one stays revoked. No setting goes missing or changes its type.
-/

namespace AoMarket.Ledger

open Relational Models Database Environment SettingsRepo Commands Runner Writes ServiceWrites
  ChatWrites HttpRoutes HttpAccess HttpWrites WatchExpiry SettingTypes Concurrency MarketRepo

variable {p : String} {op : Write} {db db' : Db} {note : List Event}

/-! The tables of users, actions and keys under one write -/

/-- Three things can happen to the users: one is added, and not as an admin, one is erased,
or nothing. -/
theorem users_of_effect (h : Effect op db db' note) :
    (∃ q, op = .insertUser q ∧ q ∉ db.users.map MarketUser.player ∧
      db'.users = db.users ++ [{ player := q, isAdmin := false }]) ∨
    (∃ q, op = .eraseUser q ∧ db'.users = db.users.filter fun u => !(u.player == q)) ∨
    db'.users = db.users := by
  cases h with
  | insertUser q h =>
    refine Or.inl ⟨q, rfl, Db.insertUser_accepts.mp ⟨db', h⟩, ?_⟩
    rw [Db.insertUser_eq_some h]
  | eraseUser _ q => exact Or.inr (Or.inl ⟨q, rfl, rfl⟩)
  | insertWatch row hnew h => exact Or.inr (Or.inr (by rw [(Db.insertWatch_eq_some h).2]))
  | insertHistory row cycle h => exact Or.inr (Or.inr (by rw [Db.insertHistory_eq_some h]))
  | insertSubscription row h => exact Or.inr (Or.inr (by rw [Db.insertSubscription_eq_some h]))
  | createKey player keyHash keyPrefix now h =>
    exact Or.inr (Or.inr (by rw [Db.insertApiKey_eq_some h]))
  | seedSettings _ rows =>
    obtain ⟨settings, htables⟩ := Db.seedSettings_tables rows db
    exact Or.inr (Or.inr (by rw [htables]))
  | _ => exact Or.inr (Or.inr rfl)

/-- The ledger grows at its end; it loses rows only with the player they are about. -/
theorem actions_of_effect (h : Effect op db db' note) :
    (∃ row, db'.userActions = db.userActions ++ [row]) ∨
    (∃ q, op = .eraseUser q ∧ db'.userActions = db.userActions.filter fun a => !(a.player == q)) ∨
    db'.userActions = db.userActions := by
  cases h with
  | insertAction _ row => exact Or.inl ⟨row, rfl⟩
  | eraseUser _ q => exact Or.inr (Or.inl ⟨q, rfl, rfl⟩)
  | insertUser q h => exact Or.inr (Or.inr (by rw [Db.insertUser_eq_some h]))
  | insertWatch row hnew h => exact Or.inr (Or.inr (by rw [(Db.insertWatch_eq_some h).2]))
  | insertHistory row cycle h => exact Or.inr (Or.inr (by rw [Db.insertHistory_eq_some h]))
  | insertSubscription row h => exact Or.inr (Or.inr (by rw [Db.insertSubscription_eq_some h]))
  | createKey player keyHash keyPrefix now h =>
    exact Or.inr (Or.inr (by rw [Db.insertApiKey_eq_some h]))
  | seedSettings _ rows =>
    obtain ⟨settings, htables⟩ := Db.seedSettings_tables rows db
    exact Or.inr (Or.inr (by rw [htables]))
  | _ => exact Or.inr (Or.inr rfl)

/-! Admins -/

/-- A write makes nobody an admin. -/
theorem admin_of_effect {env : Env} (h : Effect op db db' note) (hadmin : IsAdmin env db' p) :
    IsAdmin env db p := by
  rcases hadmin with howner | ⟨u, hu, hplayer, hflag⟩
  · exact Or.inl howner
  · refine Or.inr ⟨u, ?_, hplayer, hflag⟩
    rcases users_of_effect h with ⟨q, _, _, husers⟩ | ⟨q, _, husers⟩ | husers
    · rw [husers] at hu
      rcases List.mem_append.mp hu with hold | hnew
      · exact hold
      · rw [List.mem_singleton.mp hnew] at hflag
        cases hflag
    · rw [husers] at hu
      exact (List.mem_filter.mp hu).1
    · rwa [husers] at hu

/-! What stays of a player -/

/-- The same key later: all of it stays but the times of its use and of its revocation,
and a revocation stays too. -/
structure Successor (k k' : ApiKey) : Prop where
  id : k'.id = k.id
  player : k'.player = k.player
  keyHash : k'.keyHash = k.keyHash
  keyPrefix : k'.keyPrefix = k.keyPrefix
  createdAt : k'.createdAt = k.createdAt
  revoked : k.revokedAt ≠ none → k'.revokedAt = k.revokedAt

theorem Successor.refl (k : ApiKey) : Successor k k := ⟨rfl, rfl, rfl, rfl, rfl, fun _ => rfl⟩

theorem Successor.trans {k k' k'' : ApiKey} (h : Successor k k') (h' : Successor k' k'') :
    Successor k k'' where
  id := h'.id.trans h.id
  player := h'.player.trans h.player
  keyHash := h'.keyHash.trans h.keyHash
  keyPrefix := h'.keyPrefix.trans h.keyPrefix
  createdAt := h'.createdAt.trans h.createdAt
  revoked := fun hk => by
    have hmid := h.revoked hk
    rw [h'.revoked (by rwa [hmid]), hmid]

structure Kept (p : String) (db db' : Db) : Prop where
  user : ∀ u, lookup MarketUser.player p db.users = some u →
    lookup MarketUser.player p db'.users = some u
  actions : actionsOf db p <+: actionsOf db' p
  keys : ∀ k ∈ db.apiKeys, k.player = p → ∃ k' ∈ db'.apiKeys, Successor k k'

theorem Kept.refl (p : String) (db : Db) : Kept p db db :=
  ⟨fun _ h => h, List.prefix_refl _, fun k hk _ => ⟨k, hk, Successor.refl k⟩⟩

theorem Kept.trans {db'' : Db} (h : Kept p db db') (h' : Kept p db' db'') : Kept p db db'' where
  user := fun u hu => h'.user u (h.user u hu)
  actions := h.actions.trans h'.actions
  keys := fun k hk hplayer => by
    obtain ⟨k', hk', hsucc⟩ := h.keys k hk hplayer
    obtain ⟨k'', hk'', hsucc'⟩ := h'.keys k' hk' (hsucc.player.trans hplayer)
    exact ⟨k'', hk'', hsucc.trans hsucc'⟩

/-- A user row stays unless that player is erased. -/
theorem user_kept (h : Effect op db db' note) (hop : op ≠ .eraseUser p) {u : MarketUser}
    (hu : lookup MarketUser.player p db.users = some u) :
    lookup MarketUser.player p db'.users = some u := by
  rcases users_of_effect h with ⟨q, _, _, husers⟩ | ⟨q, rfl, husers⟩ | husers
  · rw [husers, lookup_insert, hu]
    rfl
  · have hne : p ≠ q := fun heq => hop (congrArg Write.eraseUser heq.symm)
    rw [husers]
    refine (lookup_deleteRows p q).trans ?_
    rw [if_neg hne, hu]
  · rw [husers, hu]

/-- The player's part of the ledger only grows. -/
theorem actions_kept (h : Effect op db db' note) (hop : op ≠ .eraseUser p) :
    actionsOf db p <+: actionsOf db' p := by
  unfold actionsOf
  rcases actions_of_effect h with ⟨row, hrows⟩ | ⟨q, rfl, hrows⟩ | hrows
  · rw [hrows, List.filter_append]
    exact List.prefix_append _ _
  · have hne : p ≠ q := fun heq => hop (congrArg Write.eraseUser heq.symm)
    have hsame : (fun a : MarketUserAction => a.player == p && !(a.player == q)) =
        fun a => a.player == p := by
      funext a
      by_cases ha : a.player = p
      · simp [ha, hne]
      · simp [ha]
    exact ⟨[], by rw [hrows, List.filter_filter, hsame, List.append_nil]⟩
  · exact ⟨[], by rw [hrows, List.append_nil]⟩

/-- A key changes only by its owner's revocation, while it is active, and by its use. -/
theorem keys_kept (h : Effect op db db' note) (hop : op ≠ .eraseUser p) {k : ApiKey}
    (hk : k ∈ db.apiKeys) (hplayer : k.player = p) : ∃ k' ∈ db'.apiKeys, Successor k k' := by
  have hsame : db'.apiKeys = db.apiKeys → ∃ k' ∈ db'.apiKeys, Successor k k' :=
    fun heq => ⟨k, by rwa [heq], Successor.refl k⟩
  cases h with
  | eraseUser _ q =>
    have hne : p ≠ q := fun heq => hop (congrArg Write.eraseUser heq.symm)
    refine ⟨k, mem_cascade.mpr ⟨hk, fun u _ hu heq => hne ?_⟩, Successor.refl k⟩
    have huser : u.player = q := by simpa using hu
    rw [← hplayer, ← heq, huser]
  | createKey player keyHash keyPrefix now h =>
    rw [Db.insertApiKey_eq_some h]
    exact ⟨k, List.mem_append_left _ hk, Successor.refl k⟩
  | revokeKeys _ q now =>
    refine ⟨_, List.mem_map.mpr ⟨k, hk, rfl⟩, ?_⟩
    split
    · next hselected =>
      refine ⟨rfl, rfl, rfl, rfl, rfl, fun hrevoked => ?_⟩
      simp only [Bool.and_eq_true, AuthService.activeKey, Option.isNone_iff_eq_none] at hselected
      exact absurd hselected.2 hrevoked
    · exact Successor.refl k
  | touchKey _ keyId now =>
    refine ⟨_, List.mem_map.mpr ⟨k, hk, rfl⟩, ?_⟩
    split
    · exact ⟨rfl, rfl, rfl, rfl, rfl, fun _ => rfl⟩
    · exact Successor.refl k
  | insertUser q h => exact hsame (by rw [Db.insertUser_eq_some h])
  | insertWatch row hnew h => exact hsame (by rw [(Db.insertWatch_eq_some h).2])
  | insertHistory row cycle h => exact hsame (by rw [Db.insertHistory_eq_some h])
  | insertSubscription row h => exact hsame (by rw [Db.insertSubscription_eq_some h])
  | seedSettings _ rows =>
    obtain ⟨settings, htables⟩ := Db.seedSettings_tables rows db
    exact hsame (by rw [htables])
  | _ => exact hsame rfl

theorem kept_of_effect (h : Effect op db db' note) (hop : op ≠ .eraseUser p) : Kept p db db' :=
  ⟨fun _ => user_kept h hop, actions_kept h hop, fun _ => keys_kept h hop⟩

/-! Settings -/

/-- Every setting is still there, with its type. -/
def Declared (db db' : Db) : Prop :=
  ∀ r ∈ db.settings, ∃ r' ∈ db'.settings, r'.key = r.key ∧ r'.valueType = r.valueType

theorem Declared.refl (db : Db) : Declared db db := fun r hr => ⟨r, hr, rfl, rfl⟩

theorem Declared.trans {db'' : Db} (h : Declared db db') (h' : Declared db' db'') :
    Declared db db'' := by
  intro r hr
  obtain ⟨r', hr', hkey, htype⟩ := h r hr
  obtain ⟨r'', hr'', hkey', htype'⟩ := h' r' hr'
  exact ⟨r'', hr'', hkey'.trans hkey, htype'.trans htype⟩

theorem declared_seed (rows : List Setting) (db : Db) :
    Declared db (rows.foldl Db.seedSetting db) := by
  induction rows generalizing db with
  | nil => exact Declared.refl db
  | cons row rest ih =>
    refine Declared.trans ?_ (ih (db.seedSetting row))
    intro r hr
    refine ⟨r, ?_, rfl, rfl⟩
    unfold Db.seedSetting
    dsimp only
    split
    · exact hr
    · exact List.mem_append_left _ hr

/-- No write takes a setting away or gives it another type. -/
theorem declared_of_effect (h : Effect op db db' note) : Declared db db' := by
  by_cases hop : op = .setting
  · cases h with
    | seedSettings _ rows => exact declared_seed rows db
    | updateSetting _ key value =>
      intro r hr
      refine ⟨_, List.mem_map.mpr ⟨r, hr, rfl⟩, ?_⟩
      split
      · exact ⟨rfl, rfl⟩
      · exact ⟨rfl, rfl⟩
    | _ => cases hop
  · intro r hr
    exact ⟨r, by rwa [h.settings_eq hop], rfl, rfl⟩

/-! Any schedule of any tasks -/

/-- A tell or a request that unregisters the player. -/
def Leaves (p : String) : Task → Prop
  | .activity (.tell nameForId tell) => playerName nameForId tell.senderId = p ∧
      ∃ gs, selectCommand tell.message = some (.unregister, gs) ∧ confirmed gs = true
  | .activity (.request _ request) => request = .unregister p true
  | _ => False

theorem leaves_of_commandWrites {player : String} {name : Command} {gs : Regex.Groups}
    (h : CommandWrites player name gs (.eraseUser p)) :
    player = p ∧ name = .unregister ∧ confirmed gs = true := by
  cases name with
  | unregister => exact ⟨(Write.eraseUser.inj h.2).symm, rfl, h.1⟩
  | untrackAll | apikeyRevoke => cases h.2
  | register => rcases h with h | h <;> cases h
  | apikeyGenerate => rcases h with h | h | h <;> cases h
  | filterPrice | filterQl | filterClear | overview =>
    obtain ⟨_, h⟩ := h
    cases h
  | unwatchAll => rcases h.2 with h | h <;> cases h
  | unwatchBulk | unwatch => rcases h with h | ⟨_, h⟩ <;> cases h
  | watchAoid => rcases h with h | ⟨_, h | h⟩ <;> cases h
  | _ => exact h.elim

theorem leaves_of_requestWrites {request : Request} (h : RequestWrites request (.eraseUser p)) :
    request = .unregister p true := by
  cases request with
  | unregister player confirm =>
    obtain ⟨rfl, h⟩ := h
    rw [Write.eraseUser.inj h]
  | register | unsubscribe => rcases h with h | h <;> cases h
  | updateSetting | startWatching | stopTracking | updateFilter | clearFilter => cases h
  | subscribe => rcases h with h | h | h <;> cases h
  | bulkUnsubscribe => rcases h with h | ⟨_, _, h⟩ <;> cases h
  | unsubscribeAll => rcases h.2 with h | h <;> cases h
  | untrackAll => cases h.2
  | triggerPoll =>
    rcases h with ⟨_, h⟩ | h | ⟨_, _, h⟩
    · cases h
    · cases h
    · rcases h with (h | h | h | ⟨_, h | h⟩ | h) | h <;> cases h
  | triggerAutotrack => rcases h with h | h | ⟨_, h⟩ | h <;> cases h
  | _ => exact h.elim

/-- Only a task that asks for it erases the player. -/
theorem leaves_of_taskWrites {task : Task} (h : TaskWrites task (.eraseUser p)) :
    Leaves p task := by
  cases task with
  | startup => cases h
  | activity a =>
    cases a with
    | poll => exact absurd (@leaves_of_requestWrites p .triggerPoll h) (by simp)
    | sync => exact absurd (@leaves_of_requestWrites p .triggerAutotrack h) (by simp)
    | online player => cases h
    | tell nameForId tell =>
      rcases h with h | ⟨name, gs, hselect, hop⟩
      · cases h
      · obtain ⟨hplayer, rfl, hconfirmed⟩ := leaves_of_commandWrites hop
        exact ⟨hplayer, gs, hselect, hconfirmed⟩
    | request xApiKey request =>
      rcases h with h | h
      · cases h
      · exact leaves_of_requestWrites h

section Schedules
variable {ι : Type} [DecidableEq ι]

theorem kept_afterwards (app : App) {tasks : ι → Task} (hstays : ∀ i, ¬ Leaves p (tasks i))
    (w : World) (schedule : List ι) : Kept p w.db (afterwards app tasks w schedule).db := by
  refine afterwards_rel (Kept.refl p) Kept.trans ?_ w schedule
  intro i op db db' note hop heffect
  refine kept_of_effect heffect fun herase => hstays i ?_
  rw [herase] at hop
  exact leaves_of_taskWrites hop

/-- No schedule of any tasks makes a player an admin, and an admin whom no task asks to
unregister, with the confirmation, stays one. -/
theorem nobody_promoted (app : App) (tasks : ι → Task) (w : World) (schedule : List ι)
    (p : String) :
    (IsAdmin app.env (afterwards app tasks w schedule).db p → IsAdmin app.env w.db p) ∧
      ((∀ i, ¬ Leaves p (tasks i)) → IsAdmin app.env w.db p →
        IsAdmin app.env (afterwards app tasks w schedule).db p) := by
  constructor
  · refine afterwards_rel (R := fun db db' => IsAdmin app.env db' p → IsAdmin app.env db p)
      (fun _ => id) (fun hab hbc hc => hab (hbc hc)) ?_ w schedule
    exact fun _ _ _ _ _ _ => admin_of_effect
  · intro hstays hadmin
    rcases hadmin with howner | ⟨u, hu, hplayer, hflag⟩
    · exact Or.inl howner
    · have hrow : lookup MarketUser.player p w.db.users = some u :=
        (lookup_eq_some w.db.sound.user_key).mpr ⟨hu, hplayer⟩
      have hkept := (kept_afterwards app hstays w schedule).user u hrow
      obtain ⟨hmem, hsame⟩ := (lookup_eq_some (Db.sound _).user_key).mp hkept
      exact Or.inr ⟨u, hmem, hsame, hflag⟩

def aliceAndBob : Fin 3 → Task
  | 0 => .activity (.tell (fun _ => some "alice") ⟨7, "!settings Enabled off"⟩)
  | 1 => .activity (.tell (fun _ => some "bob") ⟨8, "market unregister confirm"⟩)
  | 2 => .activity .poll

theorem alice_stays (i : Fin 3) : ¬ Leaves "alice" (aliceAndBob i) := by
  match i with
  | 0 =>
    rintro ⟨_, gs, hselect, _⟩
    have hnone : selectCommand "!settings Enabled off" = none := rfl
    rw [hnone] at hselect
    cases hselect
  | 1 =>
    intro hleaves
    exact absurd hleaves.1 (by decide)
  | 2 => exact id

theorem alice_not_promoted :
    ¬ IsAdmin .calm (afterwards calmApp aliceAndBob { db := ChatIsolation.twoPlayers }
      [0, 1, 2, 0, 2, 1, 1, 1, 0]).db "alice" := by
  intro hadmin
  have hbefore := (nobody_promoted calmApp aliceAndBob { db := ChatIsolation.twoPlayers }
    [0, 1, 2, 0, 2, 1, 1, 1, 0] "alice").1 hadmin
  rcases hbefore with ⟨howner, _⟩ | ⟨u, hu, _, hflag⟩
  · exact howner rfl
  · have hnone : ∀ u ∈ ChatIsolation.twoPlayers.users, u.isAdmin = false := by decide
    rw [hnone u hu] at hflag
    cases hflag

/-- Under any schedule of tasks none of which unregisters the player, the player's row stays
as it is, the log of the player's actions only grows, and the player's keys stay, the revoked
ones revoked. Settings keep their keys and types. -/
theorem records_kept (app : App) (tasks : ι → Task) (w : World) (schedule : List ι) :
    (∀ p, (∀ i, ¬ Leaves p (tasks i)) → Kept p w.db (afterwards app tasks w schedule).db) ∧
      Declared w.db (afterwards app tasks w schedule).db :=
  ⟨fun _ hstays => kept_afterwards app hstays w schedule,
    afterwards_rel Declared.refl Declared.trans (fun _ _ _ _ _ _ => declared_of_effect) w schedule⟩

theorem alice_kept_while_bob_leaves :
    Kept "alice" ChatIsolation.twoPlayers
      (afterwards calmApp aliceAndBob { db := ChatIsolation.twoPlayers }
        [0, 1, 2, 0, 2, 1, 1, 1, 0]).db :=
  (records_kept calmApp aliceAndBob { db := ChatIsolation.twoPlayers }
    [0, 1, 2, 0, 2, 1, 1, 1, 0]).1 "alice" alice_stays

end Schedules

end AoMarket.Ledger
