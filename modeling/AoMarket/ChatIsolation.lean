import AoMarket.ChatWrites

/-!
What a tell of one player does to the rows of the others. Every write of the
command table but one concerns the sender alone; `market untrack all confirm`
deletes the watch rows, and with them everybody's subscriptions.
-/

namespace AoMarket.ChatIsolation

open Coroutine Relational Models Database Regex Environment MarketRepo SettingsRepo Commands
  AdminCommands Runner Writes ChatWrites

/-- The rows of players other than `p` are the same in the four tables. -/
structure OthersKept (p : String) (db db' : Db) : Prop where
  users : (db'.users.filter fun r => r.player != p) = db.users.filter fun r => r.player != p
  subscriptions : (db'.subscriptions.filter fun r => r.player != p) =
    db.subscriptions.filter fun r => r.player != p
  pendingAlerts : (db'.pendingAlerts.filter fun r => r.player != p) =
    db.pendingAlerts.filter fun r => r.player != p
  apiKeys : (db'.apiKeys.filter fun r => r.player != p) = db.apiKeys.filter fun r => r.player != p

theorem OthersKept.refl (p : String) (db : Db) : OthersKept p db db := ⟨rfl, rfl, rfl, rfl⟩

theorem OthersKept.trans {p : String} {a b c : Db} (h : OthersKept p a b)
    (h' : OthersKept p b c) : OthersKept p a c :=
  ⟨h'.users.trans h.users, h'.subscriptions.trans h.subscriptions,
    h'.pendingAlerts.trans h.pendingAlerts, h'.apiKeys.trans h.apiKeys⟩

def Own (p : String) : Write → Prop
  | .insertUser q | .eraseUser q | .insertSubscription q _ | .deleteSubscription q _
  | .deleteSubscriptions q | .updateFilter q _ | .createKey q | .revokeKeys q => q = p
  | .upsertWatch _ | .insertAction | .setting => True
  | _ => False

/-- The cascade of an unregistration reaches the rows of that player only. -/
theorem eraseUser_othersKept (p : String) (db : Db) : OthersKept p db (eraseUser db p) := by
  constructor
  · exact filter_deleteRows fun r _ h => by simpa using h
  · have hcascade : ((cascade MarketSubscription.player MarketUser.player (fun u => u.player == p)
        db.users (deleteRows (fun s => s.player == p) db.subscriptions)).filter
          fun r => r.player != p) =
        (deleteRows (fun s => s.player == p) db.subscriptions).filter fun r => r.player != p := by
      apply filter_cascade
      intro c _ hc r _ hr hrc
      have hrp : r.player = p := by simpa using hr
      simp [← hrc, hrp] at hc
    exact hcascade.trans (filter_deleteRows fun r _ h => by simpa using h)
  · exact filter_deleteRows fun r _ h => by simpa using h
  · apply filter_cascade
    intro c _ hc r _ hr hrc
    have hrp : r.player = p := by simpa using hr
    simp [← hrc, hrp] at hc

theorem othersKept_of_tables {p : String} {db db' : Db} (hu : db'.users = db.users)
    (hs : db'.subscriptions = db.subscriptions) (ha : db'.pendingAlerts = db.pendingAlerts)
    (hk : db'.apiKeys = db.apiKeys) : OthersKept p db db' :=
  ⟨by rw [hu], by rw [hs], by rw [ha], by rw [hk]⟩

/-- Seeding settings changes the settings only. -/
theorem seed_tables (rows : List Setting) (db : Db) :
    (rows.foldl Db.seedSetting db).users = db.users ∧
      (rows.foldl Db.seedSetting db).subscriptions = db.subscriptions ∧
      (rows.foldl Db.seedSetting db).pendingAlerts = db.pendingAlerts ∧
      (rows.foldl Db.seedSetting db).apiKeys = db.apiKeys := by
  induction rows generalizing db with
  | nil => exact ⟨rfl, rfl, rfl, rfl⟩
  | cons row rest ih => exact ih (db.seedSetting row)

/-- A player's own write leaves the rows of all others alone. -/
theorem othersKept_of_effect {p : String} {op : Write} {db db' : Db} {note : List Event}
    (hown : Own p op) (h : Effect op db db' note) : OthersKept p db db' := by
  cases h with
  | insertUser player h =>
    have ht := Db.insertUser_eq_some h
    refine ⟨?_, by rw [ht], by rw [ht], by rw [ht]⟩
    rw [ht]
    exact filter_insert (by simpa [Own] using hown)
  | eraseUser _ player =>
    cases hown
    exact eraseUser_othersKept _ _
  | insertWatch row hnew h =>
    have ht := (Db.insertWatch_eq_some h).2
    exact othersKept_of_tables (by rw [ht]) (by rw [ht]) (by rw [ht]) (by rw [ht])
  | updateWatch _ aoid f hf hkeep => exact othersKept_of_tables rfl rfl rfl rfl
  | insertSubscription row h =>
    have ht := Db.insertSubscription_eq_some h
    refine ⟨by rw [ht], ?_, by rw [ht], by rw [ht]⟩
    rw [ht]
    exact filter_insert (by simpa [Own] using hown)
  | deleteSubscription _ player aoid =>
    refine ⟨rfl, filter_deleteRows fun r _ hr => ?_, rfl, rfl⟩
    have hne : r.player ≠ p := by simpa using hr
    have hkey : r.key ≠ (player, aoid) := fun hk => hne ((congrArg Prod.fst hk).trans hown)
    simpa using hkey
  | deleteSubscriptions _ player =>
    refine ⟨rfl, filter_deleteRows fun r _ hr => ?_, rfl, rfl⟩
    cases hown
    simpa using hr
  | updateFilter _ player aoid f hf =>
    have hplayer : ∀ r : MarketSubscription, r.key = (player, aoid) → r.player = p :=
      fun r hk => (congrArg Prod.fst hk).trans hown
    refine ⟨rfl, filter_updateRows ?_ ?_, rfl, rfl⟩
    · intro r _ hr
      simpa using hplayer r (by simpa using hr)
    · intro r _ hr
      have hk : (f r).key = (player, aoid) := (hf r).trans (by simpa using hr)
      simpa using hplayer _ hk
  | insertAction _ row => exact othersKept_of_tables rfl rfl rfl rfl
  | createKey player keyHash keyPrefix now h =>
    have ht := Db.insertApiKey_eq_some h
    refine ⟨by rw [ht], by rw [ht], by rw [ht], ?_⟩
    rw [ht]
    exact filter_insert (by simpa [Own] using hown)
  | revokeKeys _ player now =>
    refine ⟨rfl, rfl, rfl, filter_updateRows ?_ ?_⟩
    · intro k _ hk
      cases hown
      simpa using (Bool.and_eq_true_iff.mp hk).1
    · intro k _ hk
      cases hown
      simpa using (Bool.and_eq_true_iff.mp hk).1
  | seedSettings _ rows =>
    obtain ⟨hu, hs, ha, hk⟩ := seed_tables rows _
    exact othersKept_of_tables hu hs ha hk
  | updateSetting _ key value => exact othersKept_of_tables rfl rfl rfl rfl
  | _ => exact hown.elim

theorem othersKept_of_keeps {α : Type} {A : Write → Prop} {q : M α} {p : String}
    (h : Keeps A q) (hA : ∀ op, A op → Own p op) (w : World) :
    OthersKept p w.db (q.run w).2.db :=
  h.run_rel (R := OthersKept p) (OthersKept.refl p) OthersKept.trans
    (fun op _ _ _ hop heffect => othersKept_of_effect (hA op hop) heffect) w

/-- The only command with a write on other players' rows is a confirmed untrack all. -/
theorem own_of_commandWrites {p : String} {name : Command} {gs : Groups} {op : Write}
    (h : CommandWrites p name gs op) (hclear : op ≠ .clearWatch) : Own p op := by
  cases name with
  | register => rcases h with rfl | rfl <;> trivial
  | unregister =>
    obtain ⟨_, rfl⟩ := h
    exact rfl
  | untrackAll => exact absurd h.2 hclear
  | apikeyGenerate => rcases h with rfl | rfl | rfl <;> exact rfl
  | apikeyRevoke =>
    obtain ⟨_, rfl⟩ := h
    exact rfl
  | filterPrice | filterQl | filterClear =>
    obtain ⟨_, rfl⟩ := h
    exact rfl
  | unwatchAll => obtain ⟨_, rfl | rfl⟩ := h <;> trivial
  | unwatchBulk | unwatch => rcases h with rfl | ⟨_, rfl⟩ <;> trivial
  | watchAoid => rcases h with rfl | ⟨_, rfl | rfl⟩ <;> trivial
  | overview =>
    obtain ⟨_, rfl⟩ := h
    trivial
  | _ => exact h.elim

/-! The tell that clears the tracked items -/

def Enabled (db : Db) : Prop :=
  ∃ row, lookup Setting.key "Enabled" db.settings = some row ∧ row.valueType = .bool ∧
    row.value = "true"

/-- A confirmed `market untrack all`, with the module enabled, whose three
statements (the setting, the count, the delete) the server accepts. -/
def Untracks (env : Env) (w : World) (msg : String) : Prop :=
  (∃ gs, selectCommand msg = some (.untrackAll, gs) ∧ confirmed gs = true) ∧ Enabled w.db ∧
    ∀ i < 3, env.dbFault (w.tick + i) = none

theorem readSetting_enabled (env : Env) (db : Db) :
    readSetting env db "Enabled" = .ok (.bool true) ↔ Enabled db := by
  have hplain : text env "Enabled" = .ok () := if_pos (env.storable_plain _ (by decide) (by decide))
  unfold readSetting Enabled
  rw [hplain]
  cases hrow : lookup Setting.key "Enabled" db.settings with
  | none => simp [bind, Except.bind]
  | some row =>
    cases htype : row.valueType with
    | bool => simp [bind, Except.bind, htype, deserialize]
    | int =>
      simp only [bind, Except.bind, htype, deserialize]
      cases PyText.parseInt env.py.decimal row.value <;> simp [htype]
    | float =>
      simp only [bind, Except.bind, htype, deserialize]
      cases env.py.parseFloat row.value <;> simp [htype]
    | str => simp [bind, Except.bind, htype, deserialize]

theorem starts_pattern (body : List Re) :
    Re.Starts (fun c => foldLetter c == 'm') (pattern body) := by
  have hm : Re.Starts (fun c => foldLetter c == 'm') (.alt (word "market") (word "mkt")) :=
    Re.Starts.alt (starts_word "arket".toList rfl) (starts_word "kt".toList rfl)
  exact hm.all _

/-- Every market pattern begins with the letter m, in either case. -/
theorem starts_patterns {p : Command × Re} (h : p ∈ patterns) :
    Re.Starts (fun c => foldLetter c == 'm') p.2 := by
  have hall : ∀ q ∈ patterns, ∃ body, q.2 = pattern body := by
    simp only [patterns, List.forall_mem_cons]
    refine ⟨⟨_, rfl⟩, ⟨_, rfl⟩, ⟨_, rfl⟩, ⟨_, rfl⟩, ⟨_, rfl⟩, ⟨_, rfl⟩, ⟨_, rfl⟩, ⟨_, rfl⟩, ⟨_, rfl⟩,
      ⟨_, rfl⟩, ⟨_, rfl⟩, ⟨_, rfl⟩, ⟨_, rfl⟩, ⟨_, rfl⟩, ⟨_, rfl⟩, ⟨_, rfl⟩, ⟨_, rfl⟩, ⟨_, rfl⟩,
      ⟨_, rfl⟩, ⟨_, rfl⟩, ⟨_, rfl⟩, ?_⟩
    intro q hq
    cases hq
  obtain ⟨body, hbody⟩ := hall p h
  rw [hbody]
  exact starts_pattern body

/-- Every settings pattern begins with an exclamation mark, so no message is for both tables. -/
theorem starts_adminPatterns {p : AdminCommand × Re} (h : p ∈ adminPatterns) :
    Re.Starts (fun c => foldLetter c == '!') p.2 := by
  have hword : Re.Starts (fun c => foldLetter c == '!') (word "!settings") :=
    starts_word "settings".toList rfl
  have hall : ∀ q ∈ adminPatterns, ∃ rs, q.2 = .all (word "!settings" :: rs) := by
    simp only [adminPatterns, List.forall_mem_cons]
    refine ⟨⟨_, rfl⟩, ⟨_, rfl⟩, ⟨_, rfl⟩, ?_⟩
    intro q hq
    cases hq
  obtain ⟨rs, hrs⟩ := hall p h
  rw [hrs]
  exact hword.all rs

/-- The pattern that decides matches the message. -/
theorem first_match {α : Type} {table : List (α × Re)} {msg : String} {r : α × Groups}
    (h : (table.findSome? fun p => (p.2.matchStart msg).map fun gs => (p.1, gs)) = some r) :
    ∃ p ∈ table, ∃ gs, p.2.matchStart msg = some gs := by
  obtain ⟨p, hp, hm⟩ := List.exists_of_findSome?_eq_some h
  obtain ⟨gs, hgs, _⟩ := Option.map_eq_some_iff.mp hm
  exact ⟨p, hp, gs, hgs⟩

/-- A market command is no admin command. -/
theorem selectAdmin_of_selectCommand {msg : String} {r : Command × Groups}
    (h : selectCommand msg = some r) : selectAdmin msg = none := by
  cases hadmin : selectAdmin msg with
  | none => rfl
  | some r' =>
    obtain ⟨p, hp, gs, hgs⟩ := first_match h
    obtain ⟨q, hq, gs', hgs'⟩ := first_match hadmin
    obtain ⟨c, rest, hc, hm⟩ := (starts_patterns hp).matchStart hgs
    obtain ⟨c', rest', hc', hb⟩ := (starts_adminPatterns hq).matchStart hgs'
    rw [hc] at hc'
    obtain ⟨rfl, -⟩ := List.cons.inj hc'
    have hm' := eq_of_beq hm
    have hb' := eq_of_beq hb
    rw [hm'] at hb'
    exact absurd hb' (by decide)

variable {env : Env}

/-- The count and the delete are two statements; the watch rows go only if the server
takes both. -/
theorem run_clearWatch_db (w : World) :
    ((clearWatch env).run w).2.db =
      if env.dbFault w.tick = none ∧ env.dbFault (w.tick + 1) = none then
        w.db.deleteWatch fun _ => true
      else w.db := by
  unfold clearWatch countWatch query statement
  rw [Coro.run_bind, Coro.run_act]
  cases hcount : env.dbFault w.tick with
  | some e => simp [World.next]
  | none =>
    simp only [Except.map, Coro.run_bind, Coro.run_act]
    cases hclear : env.dbFault (w.tick + 1) with
    | some e => simp [World.next]
    | none => simp

theorem dispatchReply_untrackAll_db (p : String) {gs : Groups} (hconfirmed : confirmed gs = true)
    (w : World) : ((Commands.dispatchReply env p .untrackAll gs).run w).2.db =
      ((clearWatch env).run w).2.db := by
  unfold Commands.dispatchReply
  rw [run_handle_db]
  · simp only [Commands.dispatch, hconfirmed]
    exact run_bind_db (fun _ => Coro.Frames.pure _) w
  · intro e
    split
    · exact Coro.Frames.pure _
    · exact Coro.Frames.throw _

/-- The confirmed command untracks everything exactly when the module is enabled and the server
takes the count and the delete. -/
theorem untracks_iff {w : World} {msg : String} {gs : Groups}
    (hsel : selectCommand msg = some (.untrackAll, gs)) (hconfirmed : confirmed gs = true) :
    Untracks env w msg ↔ ReadsTrue env "Enabled" w ∧
      env.dbFault (w.tick + 1) = none ∧ env.dbFault (w.tick + 2) = none := by
  unfold Untracks ReadsTrue
  rw [readSetting_enabled]
  constructor
  · rintro ⟨_, hen, hfault⟩
    exact ⟨⟨hfault 0 (by omega), hen⟩, hfault 1 (by omega), hfault 2 (by omega)⟩
  · rintro ⟨⟨h0, hen⟩, h1, h2⟩
    refine ⟨⟨gs, hsel, hconfirmed⟩, hen, ?_⟩
    intro i hi
    have hcases : i = 0 ∨ i = 1 ∨ i = 2 := by omega
    rcases hcases with rfl | rfl | rfl
    · exact h0
    · exact h1
    · exact h2

/-- What a confirmed `market untrack all` leaves of the database. -/
theorem handleTell_untrackAll_db (nameForId : ℕ → Option String) (tell : InboundTell) (w : World)
    {gs : Groups} (hsel : selectCommand tell.message = some (.untrackAll, gs))
    (hconfirmed : confirmed gs = true) :
    Untracks env w tell.message ∧
        ((handleTell env nameForId tell).run w).2.db = w.db.deleteWatch (fun _ => true) ∨
      ¬ Untracks env w tell.message ∧ ((handleTell env nameForId tell).run w).2.db = w.db := by
  have hreply : ∀ p, replyTo env p tell.message = handleCommand env p tell.message := by
    intro p
    unfold replyTo handleAdminCommand
    rw [selectAdmin_of_selectCommand hsel]
    rfl
  have hdb : ((handleTell env nameForId tell).run w).2.db =
      ((handleCommand env (playerName nameForId tell.senderId) tell.message).run w).2.db := by
    unfold handleTell
    rw [run_bind_db (fun reply => keeps_sendReply tell.senderId reply) w, hreply]
  rw [hdb, untracks_iff hsel hconfirmed]
  unfold handleCommand
  rw [Coro.run_bind]
  rcases @run_getBool_cases env "Enabled" w with ⟨hrun, htrue⟩ | ⟨hnot, r, hr, hrun⟩
  · rw [hrun]
    simp only [hsel]
    have hclear := @dispatchReply_untrackAll_db env (playerName nameForId tell.senderId) gs
      hconfirmed w.next
    rw [run_clearWatch_db] at hclear
    by_cases hfault : env.dbFault (w.tick + 1) = none ∧ env.dbFault (w.tick + 2) = none
    · refine Or.inl ⟨⟨htrue, hfault⟩, hclear.trans (if_pos hfault)⟩
    · exact Or.inr ⟨fun h => hfault h.2, hclear.trans (if_neg hfault)⟩
  · rw [hrun]
    refine Or.inr ⟨fun h => hnot h.1, ?_⟩
    cases r with
    | error e => rfl
    | ok on =>
      cases on with
      | false => rfl
      | true => exact absurd rfl hr

/-- Clearing the watch rows takes every subscription with them. -/
theorem clearWatch_subscriptions (db : Db) :
    (db.deleteWatch fun _ => true).subscriptions = [] :=
  cascade_all db.sound.sub_aoid fun _ _ => rfl

/-- A tell leaves the rows of all other players as they were, unless it clears the
tracked items while another player is watching one. Nothing asks whether the
sender is an admin. -/
theorem tell_keeps_others_iff (env : Env) (nameForId : ℕ → Option String) (tell : InboundTell)
    (w : World) :
    OthersKept (playerName nameForId tell.senderId) w.db
        ((handleTell env nameForId tell).run w).2.db ↔
      ¬ (Untracks env w tell.message ∧
        ∃ s ∈ w.db.subscriptions, s.player ≠ playerName nameForId tell.senderId) := by
  set p := playerName nameForId tell.senderId with hp
  by_cases hclear : ∃ gs, selectCommand tell.message = some (.untrackAll, gs) ∧ confirmed gs = true
  · obtain ⟨gs, hsel, hconfirmed⟩ := hclear
    rcases handleTell_untrackAll_db nameForId tell w hsel hconfirmed with
      ⟨huntracks, hdb⟩ | ⟨hnot, hdb⟩
    · rw [hdb]
      constructor
      · rintro hkept ⟨_, s, hs, hsp⟩
        have hmem : s ∈ w.db.subscriptions.filter fun r => r.player != p :=
          List.mem_filter.mpr ⟨hs, by simpa using hsp⟩
        rw [← hkept.subscriptions, clearWatch_subscriptions] at hmem
        cases hmem
      · intro hnone
        refine ⟨rfl, ?_, rfl, rfl⟩
        rw [clearWatch_subscriptions, List.filter_nil]
        symm
        apply List.filter_eq_nil_iff.mpr
        intro s hs hsp
        exact hnone ⟨huntracks, s, hs, by simpa using hsp⟩
    · rw [hdb]
      exact ⟨fun _ h => hnot h.1, fun _ => OthersKept.refl p w.db⟩
  · refine ⟨fun _ h => hclear h.1.1, fun _ => ?_⟩
    apply othersKept_of_keeps (keeps_handleTell nameForId tell)
    rintro op (rfl | ⟨name, gs, hsel, hop⟩)
    · trivial
    · apply own_of_commandWrites hop
      rintro rfl
      cases name with
      | untrackAll => exact hclear ⟨gs, hsel, hop.1⟩
      | _ => simp [CommandWrites] at hop

def twoPlayers : Db where
  toTables :=
    { users := [⟨"alice", false⟩, ⟨"bob", false⟩]
      watch := [⟨1, "Ring", 10, none, 0, none, false⟩]
      subscriptions := [{ player := "bob", aoid := 1, createdAt := 0 }]
      settings := [⟨"Enabled", "true", .bool⟩] }
  sound := by constructor <;> simp [Keyed, Refers, MarketSubscription.key]

/-- Alice, who is no admin, sends one tell and Bob's subscription is gone. -/
theorem alice_untracks_bob :
    ((AuthService.isAdminPlayer Env.calm "alice").run { db := twoPlayers }).1 = .ok false ∧
      ¬ OthersKept "alice" twoPlayers
        ((handleTell Env.calm (fun _ => some "alice") ⟨7, "market untrack all confirm"⟩).run
          { db := twoPlayers }).2.db := by
  refine ⟨rfl, fun h => ?_⟩
  have hafter : ((handleTell Env.calm (fun _ => some "alice")
      ⟨7, "market untrack all confirm"⟩).run { db := twoPlayers }).2.db.subscriptions = [] := rfl
  have hsubs := h.subscriptions
  rw [hafter] at hsubs
  exact absurd hsubs (by decide)

end AoMarket.ChatIsolation
