import AoMarket.Authority

/-!
On whose word a setting has its value. Whatever runs side by side, a value that is neither an
old one nor a default was set for an admin, by a request or a message that named the key, or
is the time of a resync.
-/

namespace AoMarket.SettingsOrigin

open Coroutine Interleaving Reliance Recording Tracing Relational Regex PyText Models Database
  Environment SettingsRepo AdminCommands AutoTrack Runner Writes ServiceWrites ChatWrites
  HttpAccess HttpWrites Authority Concurrency
open SettingTypes (seedRow)
open HttpRoutes (App Request serve guardOf)

/-- The task is a resync, of the loop or for an admin. -/
def Resyncs (env : Env) (turn : World → Prop) (task : Task) : Prop :=
  task = .activity .sync ∨ ∃ xApiKey, task = .activity (.request xApiKey .triggerAutotrack) ∧
    Authorised env turn xApiKey .admin

/-- The task is one that sets the key to the value, and somebody who may has it run. -/
inductive Ordered (env : Env) (turn : World → Prop) (task : Task) (key : String)
    (value : SettingValue) : Prop
  | put (xApiKey : Option String)
      (htask : task = .activity (.request xApiKey (.updateSetting key value)))
      (hallowed : Authorised env turn xApiKey .admin)
  | tell (nameForId : ℕ → Option String) (tell : InboundTell) (gs : Groups)
      (current : SettingValue) (vouched : World)
      (htask : task = .activity (.tell nameForId tell))
      (hcommand : selectAdmin tell.message = some (.settingsSet, gs))
      (hkey : (groupOf gs 1).getD "" = key)
      (hvalue : coerceTo env.py key (strip ((groupOf gs 2).getD "")) current = .ok value)
      (hvouched : turn vouched)
      (hadmin : IsAdmin env vouched.db (playerName nameForId tell.senderId))
  | resync (asked : World)
      (htask : Resyncs env turn task) (hasked : turn asked) (hkey : key = "AutoTrackLastSync")
      (hvalue : value = .int (env.clock asked.tick / 1000000))

/-- The row was there at the start, or it was seeded, or its value was set for a row of its key
that the same task had read. -/
def Explained {ι : Type} (env : Env) (tasks : ι → Task) (start : World)
    (turns : ι → World → Prop) (row : Setting) : Prop :=
  row ∈ start.db.settings ∨
  (∃ i, tasks i = .startup ∧ ∃ d ∈ defaultSettings, seedRow env.py d = .ok row) ∨
  ∃ i value, Ordered env (turns i) (tasks i) row.key value ∧
    ∃ read, turns i read ∧ ∃ before ∈ read.db.settings, before.key = row.key ∧
      serialize env.py value before.valueType = .ok row.value

/-- The settings that a run has left are explained. -/
structure Ruled {ι : Type} (env : Env) (tasks : ι → Task) (start : World)
    (t : Recorded ι World) : Prop where
  ticks : ∀ u, t.Saw u → u.tick ≤ t.now.tick
  settings : ∀ row ∈ t.now.db.settings, Explained env tasks start t.Turn row

variable {ι : Type} {i : ι} {env : Env} {tasks : ι → Task} {start : World}
  {t u : Recorded ι World} {key : String} {value : SettingValue}

section Turns
variable {turn turn' : World → Prop} {task : Task} (hmore : ∀ w, turn w → turn' w)
include hmore

theorem Resyncs.mono (h : Resyncs env turn task) : Resyncs env turn' task := by
  refine h.imp_right fun h => ?_
  obtain ⟨xApiKey, htask, hallowed⟩ := h
  exact ⟨xApiKey, htask, hallowed.mono hmore⟩

theorem Ordered.mono (h : Ordered env turn task key value) :
    Ordered env turn' task key value := by
  cases h with
  | put xApiKey htask hallowed => exact .put xApiKey htask (hallowed.mono hmore)
  | tell nameForId tell gs current vouched htask hcommand hkey hvalue hvouched hadmin =>
    exact .tell nameForId tell gs current vouched htask hcommand hkey hvalue
      (hmore _ hvouched) hadmin
  | resync asked htask hasked hkey hvalue =>
    exact .resync asked (htask.mono hmore) (hmore _ hasked) hkey hvalue

end Turns

theorem Explained.mono {turns turns' : ι → World → Prop} {row : Setting}
    (hmore : ∀ i w, turns i w → turns' i w) (h : Explained env tasks start turns row) :
    Explained env tasks start turns' row := by
  refine h.imp_right (Or.imp_right fun h => ?_)
  obtain ⟨i, value, hordered, read, hread, hbefore⟩ := h
  exact ⟨i, value, hordered.mono (hmore i), read, hmore i _ hread, hbefore⟩

/-! Everything but a setting -/

def Quiet (op : Write) : Prop := op ≠ .setting

theorem ruled_move (ht : Ruled env tasks start t) {w : World} (htick : t.now.tick ≤ w.tick)
    (hrows : ∀ row ∈ w.db.settings, row ∈ t.now.db.settings ∨
      Explained env tasks start (t.move i w).Turn row) :
    Ruled env tasks start (t.move i w) := by
  refine ⟨tick_le_move ht.ticks htick, fun row hrow => ?_⟩
  rcases hrows row hrow with hold | hnew
  · exact (ht.settings row hold).mono (later_move i w t).turn
  · exact hnew

theorem ruled_quiet {w : World} (h : Steps Quiet t.now w) (ht : Ruled env tasks start t) :
    Ruled env tasks start (t.move i w) := by
  obtain ⟨htick, note, _, hdb⟩ := h
  have hsame : w.db.settings = t.now.db.settings := by
    rcases hdb with ⟨hsame, _⟩ | ⟨op, hop, heffect⟩
    · rw [hsame]
    · exact heffect.settings_eq hop
  exact ruled_move ht (by omega) fun row hrow => Or.inl (hsame ▸ hrow)

theorem ruled_start (env : Env) (tasks : ι → Task) (w : World) : Ruled env tasks w ⟨w, []⟩ where
  ticks := tick_le_start w
  settings := fun _ hrow => Or.inl hrow

instance : Accountable (Ruled env tasks start) (Steps Quiet) where
  ticks := fun _ u h hu => h.ticks u hu
  quiet := fun _ _ _ hs h => ruled_quiet hs h
  next := Steps.next

theorem quiet_of_ticks (w w' : World) (h : Ticks w w') : Steps Quiet w w' :=
  h.steps (by simp [Quiet])

/-! Settings -/

/-- A value that is ordered by the time it is written. -/
theorem accounts_set (ht : Ruled env tasks start t)
    (hordered : ∀ u read, Later t u → u.Turn i read → Ordered env (u.Turn i) (tasks i) key value) :
    Accounts (Ruled env tasks start) i (set env key value) t fun _ _ => True := by
  unfold SettingsRepo.set
  refine Accounts.bind ht (F := fun before u => ∃ read, u.Turn i read ∧
    before ∈ read.db.settings ∧ before.key = key) ?_ fun before u hu hlater hread => ?_
  · refine accounts_query (fun _ => Steps.noted Silent.nil) ht fun w u before _ hturn _ hrow => ?_
    obtain ⟨_, _, hrow⟩ := except_bind_eq_ok.mp hrow
    cases hlookup : lookup Setting.key key w.db.settings with
    | none => simp [hlookup] at hrow
    | some row =>
      rw [hlookup] at hrow
      cases hrow
      exact ⟨w, hturn, (lookup_eq_some w.db.sound.setting_key).mp hlookup⟩
  obtain ⟨read, hturn, hmem, hkey⟩ := hread
  refine Accounts.ofExcept_bind hu fun newValue hnew => ?_
  refine accounts_statement hu fun v hv hlater' _ db note hres => ⟨?_, trivial⟩
  obtain ⟨_, _, hres⟩ := except_bind_eq_ok.mp hres
  cases hres
  refine ruled_move hv (Nat.le_succ _) fun row hrow => ?_
  obtain ⟨old, hold, rfl⟩ := List.mem_map.mp hrow
  split
  · next hselected =>
    have hold : old.key = key := by simpa using hselected
    have hmoved : ∀ w, Later u (v.move i w) := fun w => hlater'.trans _ _ _ (later_move i w v)
    refine Or.inr (Or.inr (Or.inr
      ⟨i, value, ?_, read, (hmoved _).turn i _ hturn, before, hmem, ?_, hnew⟩))
    · show Ordered env _ (tasks i) old.key value
      rw [hold]
      exact hordered _ read (hlater.trans _ _ _ (hmoved _)) ((hmoved _).turn i _ hturn)
    · exact hkey.trans hold.symm
  · exact Or.inl hold

theorem mem_seedSettings {rows : List Setting} {db : Db} {row : Setting}
    (h : row ∈ (rows.foldl Db.seedSetting db).settings) : row ∈ db.settings ∨ row ∈ rows := by
  induction rows generalizing db with
  | nil => exact Or.inl h
  | cons first rest ih =>
    rcases ih h with hold | hnew
    · unfold Db.seedSetting at hold
      dsimp only at hold
      split at hold
      · exact Or.inl hold
      · rcases List.mem_append.mp hold with hold | hfirst
        · exact Or.inl hold
        · exact Or.inr (List.mem_cons.mpr (Or.inl (List.mem_singleton.mp hfirst)))
    · exact Or.inr (List.mem_cons_of_mem _ hnew)

theorem accounts_seedDefaults (ht : Ruled env tasks start t) (htask : tasks i = .startup) :
    Accounts (Ruled env tasks start) i (seedDefaults env) t fun _ _ => True := by
  refine accounts_statement ht fun u hu _ _ db note hres => ⟨?_, trivial⟩
  obtain ⟨rows, hrows, hres⟩ := except_bind_eq_ok.mp hres
  cases hres
  refine ruled_move hu (Nat.le_succ _) fun row hrow => ?_
  refine (mem_seedSettings hrow).imp_right fun hnew => ?_
  exact Or.inr (Or.inl ⟨i, htask, (mapM_eq_ok hrows).1 row hnew⟩)

/-! The resync -/

theorem accounts_trackRanked (ht : Ruled env tasks start t) (pagesFetched : ℕ) (aoids : List ℤ)
    (htask : Resyncs env (t.Turn i) (tasks i)) :
    Accounts (Ruled env tasks start) i (trackRanked env pagesFetched aoids) t fun _ _ => True := by
  have hquiet : Quiet .backoff ∧ Quiet .unflag ∧ ∀ aoid, Quiet (.upsertWatch aoid) := by
    simp [Quiet]
  refine Accounts.bind ht (accounts_quiet (keeps_resolveItems hquiet.1 _) ht)
    fun resolved u hu hlater _ => ?_
  replace htask := htask.mono (hlater.turn i)
  refine Accounts.bind hu (accounts_quiet (keeps_unflagAutotrackNotIn hquiet.2.1 _) hu)
    fun _ u hu hlater _ => ?_
  replace htask := htask.mono (hlater.turn i)
  refine Accounts.bind hu (accounts_quiet (keeps_existingAoids _) hu)
    fun existing u hu hlater _ => ?_
  replace htask := htask.mono (hlater.turn i)
  refine Accounts.bind hu (accounts_quiet (keeps_trackResolved hquiet.2.2 _ _) hu)
    fun _ u hu hlater _ => ?_
  replace htask := htask.mono (hlater.turn i)
  refine Accounts.bind hu (F := fun now u => ∃ asked, u.Turn i asked ∧ now = env.clock asked.tick)
    ?_ fun now v hv hlater' hnow => ?_
  · exact accounts_external hu fun v hv _ now hnow => ⟨ruled_quiet (Steps.noted Silent.nil) hv,
      v.now, v.turn_now i _, (Except.ok.inj hnow).symm⟩
  obtain ⟨asked, hasked, rfl⟩ := hnow
  replace htask := htask.mono (hlater'.turn i)
  refine Accounts.bind hv (accounts_set hv fun x _ hlast _ => ?_) fun _ x hx _ _ => ?_
  · exact .resync asked (htask.mono (hlast.turn i)) (hlast.turn i _ hasked) rfl rfl
  · exact accounts_quiet (Coro.Frames.bind (keeps_announceBackground _) fun _ =>
      Coro.Frames.pure _) hx

theorem accounts_sync (ht : Ruled env tasks start t) (htask : Resyncs env (t.Turn i) (tasks i)) :
    Accounts (Ruled env tasks start) i (syncTopTradedItems env) t fun _ _ => True := by
  refine Accounts.bind ht (accounts_quiet (keeps_getBool _) ht) fun on u hu hlater _ => ?_
  replace htask := htask.mono (hlater.turn i)
  cases on with
  | false => exact Accounts.pure hu trivial
  | true =>
    refine Accounts.bind hu (accounts_quiet (keeps_getInt _) hu) fun count u hu hlater _ => ?_
    replace htask := htask.mono (hlater.turn i)
    split
    · exact Accounts.pure hu trivial
    · refine Accounts.ofExcept_bind hu fun pages _ => ?_
      refine Accounts.bind hu (accounts_quiet (keeps_getStr _) hu) fun url u hu hlater _ => ?_
      replace htask := htask.mono (hlater.turn i)
      refine Accounts.bind hu (accounts_quiet (keeps_fetchPages _ _ _ _ _) hu)
        fun r u hu hlater _ => ?_
      replace htask := htask.mono (hlater.turn i)
      dsimp only
      split
      · exact Accounts.pure hu trivial
      · exact Accounts.bind hu (accounts_trackRanked hu _ _ htask) fun _ v hv _ _ =>
          Accounts.pure hv trivial

/-! The command -/

theorem accounts_coerceOrReply (ht : Ruled env tasks start t) (raw : String) :
    Accounts (Ruled env tasks start) i (coerceOrReply env key raw) t fun r _ =>
      ∀ value, r = .inr value → ∃ current, coerceTo env.py key raw current = .ok value := by
  refine Accounts.handle ?_ fun e u hu => ?_
  · refine Accounts.bind (F := fun value _ => ∃ current,
      coerceTo env.py key raw current = .ok value) ht ?_ fun value u hu _ h => ?_
    · refine Accounts.bind ht (accounts_quiet (keeps_get key) ht) fun current u hu _ _ => ?_
      cases hcoerced : coerceTo env.py key raw current with
      | ok value => exact Accounts.pure hu ⟨current, hcoerced⟩
      | error e => exact Does.throw hu trivial
    · refine Accounts.pure hu fun value' heq => ?_
      cases heq
      exact h
  · cases e with
    | value message => exact Accounts.pure hu fun _ heq => nomatch heq
    | _ => exact Does.throw hu trivial

theorem quiet_of_commandWrites {player : String} {name : Commands.Command} {gs : Groups}
    {op : Write} (h : CommandWrites player name gs op) : Quiet op := by
  rintro rfl
  cases name with
  | unregister | untrackAll | apikeyRevoke => cases h.2
  | register => rcases h with h | h <;> cases h
  | apikeyGenerate => rcases h with h | h | h <;> cases h
  | filterPrice | filterQl | filterClear | overview =>
    obtain ⟨_, h⟩ := h
    cases h
  | unwatchAll => rcases h.2 with h | h <;> cases h
  | unwatchBulk | unwatch => rcases h with h | ⟨_, h⟩ <;> cases h
  | watchAoid => rcases h with h | ⟨_, h | h⟩ <;> cases h
  | _ => exact h.elim

section Tells
variable {nameForId : ℕ → Option String} {tell : InboundTell}
  (htask : tasks i = .activity (.tell nameForId tell))
include htask

/-- The settings command of an admin sets what its message says. -/
theorem accounts_adminDispatch (ht : Ruled env tasks start t) {name : AdminCommand} {gs : Groups}
    (hcommand : selectAdmin tell.message = some (name, gs))
    (hadmin : (∀ db, IsAdmin env db (playerName nameForId tell.senderId)) ∨
      ∃ vouched, t.Turn i vouched ∧ IsAdmin env vouched.db (playerName nameForId tell.senderId)) :
    Accounts (Ruled env tasks start) i (AdminCommands.dispatch env name gs) t
      fun _ _ => True := by
  cases name with
  | settingsSet =>
    refine Accounts.bind ht (accounts_coerceOrReply ht _) fun r u hu hlater hvalue => ?_
    cases r with
    | inl message => exact Accounts.pure hu trivial
    | inr value =>
      obtain ⟨current, hcoerced⟩ := hvalue value rfl
      refine Accounts.bind hu (accounts_set hu fun v read hlater' hread => ?_)
        fun _ v hv _ _ => ?_
      · -- the owner needs no row, and any turn will do
        obtain ⟨vouched, hvouched, hvouch⟩ : ∃ vouched, v.Turn i vouched ∧
            IsAdmin env vouched.db (playerName nameForId tell.senderId) := by
          rcases hadmin with howner | ⟨vouched, hvouched, hvouch⟩
          · exact ⟨read, hread, howner read.db⟩
          · exact ⟨vouched, hlater'.turn i _ (hlater.turn i _ hvouched), hvouch⟩
        exact .tell nameForId tell gs current vouched htask hcommand rfl hcoerced hvouched hvouch
      · exact accounts_quiet (Coro.Frames.bind (keeps_get _) fun _ => Coro.Frames.pure _) hv
  | settingsGet =>
    exact accounts_quiet (Coro.Frames.bind (keeps_get _) fun _ => Coro.Frames.pure _) ht
  | settingsList =>
    exact accounts_quiet (Coro.Frames.bind (keeps_query Silent.nil) fun _ =>
      Coro.Frames.pure _) ht

theorem accounts_handleAdminCommand (ht : Ruled env tasks start t) :
    Accounts (Ruled env tasks start) i (handleAdminCommand env
      (playerName nameForId tell.senderId) tell.message) t fun _ _ => True := by
  unfold handleAdminCommand
  cases hcommand : selectAdmin tell.message with
  | none => exact Accounts.pure ht trivial
  | some c =>
    obtain ⟨name, gs⟩ := c
    refine Accounts.bind ht (accounts_isAdminPlayer quiet_of_ticks ht _) fun b u hu _ hadmin => ?_
    cases b with
    | false => exact Accounts.pure hu trivial
    | true =>
      refine Accounts.bind (F := fun _ _ => True) hu (Accounts.handle
        (accounts_adminDispatch htask hu hcommand (hadmin rfl)) fun e v hv => ?_)
        fun _ v hv _ _ => Accounts.pure hv trivial
      cases e with
      | unknownSetting key => exact Accounts.pure hv trivial
      | _ => exact Does.throw hv trivial

theorem accounts_handleTell (ht : Ruled env tasks start t) :
    Accounts (Ruled env tasks start) i (handleTell env nameForId tell) t fun _ _ => True := by
  refine accounts_tell (fun _ _ h => h.mono fun _ => False.elim) ht
    (accounts_handleAdminCommand htask ht) fun u hu _ => ?_
  refine accounts_quiet (Coro.Frames.mono (keeps_handleCommand _) fun _ _ h =>
    h.mono fun op hop => ?_) hu
  obtain ⟨name, gs, _, hwrites⟩ := hop
  exact quiet_of_commandWrites hwrites

end Tells

/-! Tasks -/

section Tasks
variable {app : App} {request : Request}

def Sets : Request → Prop
  | .updateSetting _ _ | .triggerAutotrack => True
  | _ => False

theorem quiet_of_requestWrites (hquiet : ¬ Sets request) {op : Write}
    (h : RequestWrites request op) : Quiet op := by
  rintro rfl
  cases request with
  | updateSetting | triggerAutotrack => exact hquiet trivial
  | register | unsubscribe => rcases h with h | h <;> cases h
  | startWatching | stopTracking | updateFilter | clearFilter => cases h
  | subscribe => rcases h with h | h | h <;> cases h
  | bulkUnsubscribe => rcases h with h | ⟨_, _, h⟩ <;> cases h
  | unsubscribeAll => rcases h.2 with h | h <;> cases h
  | unregister | untrackAll => cases h.2
  | triggerPoll =>
    rcases h with ⟨_, h⟩ | h | ⟨_, _, h⟩
    · cases h
    · cases h
    · rcases h with (h | h | h | ⟨_, h | h⟩ | h) | h <;> cases h
  | _ => exact h.elim

theorem accounts_handler {t : Recorded ι World} (ht : Ruled app.env tasks start t)
    {xApiKey : Option String} (htask : tasks i = .activity (.request xApiKey request))
    (hsets : Sets request) (hallowed : Authorised app.env (t.Turn i) xApiKey .admin) :
    Accounts (Ruled app.env tasks start) i (HttpRoutes.handler app request) t
      fun _ _ => True := by
  cases request with
  | updateSetting key value =>
    refine Accounts.handle (Accounts.bind ht (accounts_set ht fun u read hlater _ =>
      .put xApiKey htask (hallowed.mono (hlater.turn i))) fun _ v hv _ _ => ?_) fun e v hv => ?_
    · exact accounts_quiet (Coro.Frames.bind (keeps_get _) fun _ => Coro.Frames.pure _) hv
    · cases e with
      | unknownSetting key => exact Accounts.pure hv trivial
      | _ => exact Does.throw hv trivial
  | triggerAutotrack =>
    show Accounts (Ruled app.env tasks start) i
      (HttpRoutes.onBot app (syncTopTradedItems app.env) .triggered) t _
    unfold HttpRoutes.onBot
    split
    · exact Accounts.pure ht trivial
    · exact Accounts.bind ht (accounts_sync ht (Or.inr ⟨xApiKey, htask, hallowed⟩))
        fun _ v hv _ _ => Accounts.pure hv trivial
  | _ => exact hsets.elim

/-- Every task accounts for the settings it leaves. -/
theorem accounts_program {t : Recorded ι World} (i : ι) (ht : Ruled app.env tasks start t) :
    Accounts (Ruled app.env tasks start) i (program app (tasks i)) t fun _ _ => True := by
  cases htask : tasks i with
  | startup => exact accounts_seedDefaults ht htask
  | activity a =>
    cases a with
    | poll =>
      refine accounts_quiet (Coro.Frames.mono (keeps_program (.activity .poll)) fun _ _ h =>
        h.mono fun op hop => ?_) ht
      exact @quiet_of_requestWrites .triggerPoll id op hop
    | sync => exact accounts_discarded (accounts_sync ht (Or.inl htask)) ht
    | online player =>
      exact accounts_discarded (accounts_quiet (keeps_deliverPendingAlerts (by simp [Quiet])) ht) ht
    | tell nameForId tell => exact accounts_handleTell htask ht
    | request xApiKey request =>
      by_cases hsets : Sets request
      · have hguard : guardOf request = .admin := by
          cases request with
          | updateSetting | triggerAutotrack => rfl
          | _ => exact hsets.elim
        refine accounts_discarded (accounts_serve
          (K := fun u => Authorised app.env (u.Turn i) xApiKey .admin) ht ?_ fun u hu hallowed =>
            accounts_handler hu htask hsets hallowed) ht
        rw [hguard]
        exact accounts_guard quiet_of_ticks ht (by decide)
      · refine accounts_quiet (Coro.Frames.mono
          (keeps_program (.activity (.request xApiKey request))) fun _ _ h =>
            h.mono fun op hop => ?_) ht
        rcases hop with rfl | hop
        · simp [Quiet]
        · exact quiet_of_requestWrites hsets hop

variable [DecidableEq ι]

/-- However cycles, resyncs, commands and requests interleave and fail, a setting that was
neither there at the start nor seeded has the value that an admin's request or message gave for
its key, or the time that a resync read. -/
theorem settings_explained (app : App) (tasks : ι → Task) (w : World) (schedule : List ι) :
    ∀ row ∈ (afterwards app tasks w schedule).db.settings,
      Explained app.env tasks w (TurnOf app tasks w schedule) row := by
  have hstart := ruled_start app.env tasks w
  obtain ⟨t, hnow, hturns, hruled⟩ := traced hstart (fun i => accounts_program i hstart) schedule
  rw [← hnow]
  exact fun row hrow => (hruled.settings row hrow).mono hturns

end Tasks

def ownerTasks : Bool → Task
  | true => .activity (.request (some "aomk_tara") (.updateSetting "PollIntervalMinutes" (.int 15)))
  | false => .activity (.tell (fun _ => some "Tara") ⟨7, "!settings PollBatchSize 5"⟩)

def ownerTurns : List Bool := (List.replicate 6 [true, false]).flatten

theorem batch_size_explained :
    Explained SettingTypes.ownedApp.env ownerTasks SettingTypes.seededWorld
      (TurnOf SettingTypes.ownedApp ownerTasks SettingTypes.seededWorld ownerTurns)
      ⟨"PollBatchSize", "5", .int⟩ :=
  settings_explained SettingTypes.ownedApp ownerTasks SettingTypes.seededWorld ownerTurns _
    (by decide +kernel)

end AoMarket.SettingsOrigin
