import AoMarket.SettingTypes
import AoMarket.BookNumbers
import AoMarket.PlayerOperations

/-!
Which calls of the services return when everything around them works. The server
refuses integers outside its columns and keys that are taken; each method looks
before it inserts, so with numbers that fit it is never refused.
-/

namespace AoMarket.ServiceCalls

open Coroutine Outcomes Relational Models Database PyText Environment SettingsRepo MarketService
  Writes ServiceWrites BookNumbers SettingTypes
open MarketRepo hiding logAction register clearFilter
open HttpRoutes (App)
open PlayerOperations (rowsOf Beside yields_beside)

def ItemFits (env : Env) (item : Item) : Prop :=
  env.storable item.name = true ∧ Fits4 item.ql ∧ ∀ icon ∈ item.icon, Fits4 icon

/-- The server is up, the other services answer with what fits the columns, and the
player's name can be stored. -/
structure Serving (env : Env) (player : String) : Prop where
  up : ∀ t, env.dbFault t = none
  name : env.storable player = true
  lookups : ∀ t aoid, (env.getItem t aoid).isOk = true
  items : ∀ t aoid item, env.getItem t aoid = .ok (some item) → ItemFits env item
  searches : ∀ t text, (env.searchItems t text).isOk = true
  answers : ∀ t aoid, (env.getOrders t aoid).isOk = true
  books : ∀ t aoid book, env.getOrders t aoid = .ok (some book) →
    book.WellTyped ∧ ∀ x ∈ book.orders, Fits (price x)
  privgroup : ∀ send ∈ env.chat.sendPrivgroup, ∀ t message, (send t message).isOk = true

section Calls
variable {app : App} {player : String} {w : World}

/-! Settings and announcements -/

theorem returns_getBool (h : SettingsRun app w) (hup : ∀ t, app.env.dbFault t = none) {key : String}
    (hd : ∃ d ∈ defaultSettings, d.key = key ∧ d.valueType = .bool) :
    Returns (getBool app.env key) w fun b w' =>
      readSetting app.env w.db key = .ok (.bool b) ∧ w'.db = w.db := by
  obtain ⟨b, hread⟩ := h.reads_bool hd
  rw [Returns, Yields, run_getBool_ok (hup _) hread]
  exact ⟨hread, rfl⟩

theorem returns_getInt (h : SettingsRun app w) (hup : ∀ t, app.env.dbFault t = none) {key : String}
    (hd : ∃ d ∈ defaultSettings, d.key = key ∧ d.valueType = .int) :
    Returns (getInt app.env key) w fun _ w' => w'.db = w.db := by
  obtain ⟨n, hread⟩ := h.reads_int hd
  rw [Returns, Yields, run_getInt_ok (hup _) hread]
  rfl

theorem returns_getItem (serving : Serving app.env player) (aoid : ℤ) :
    Returns (getItem app.env aoid) w fun item w' =>
      app.env.getItem w.tick aoid = .ok item ∧ w'.db = w.db := by
  obtain ⟨item, hitem⟩ := isOk_iff.mp (serving.lookups w.tick aoid)
  exact returns_external hitem ⟨hitem, rfl⟩

theorem returns_sendPrivgroup {env : Env}
    (hsend : ∀ send ∈ env.chat.sendPrivgroup, ∀ t message, (send t message).isOk = true)
    (message : String) : Returns (sendPrivgroup env message) w fun _ w' => w'.db = w.db := by
  unfold sendPrivgroup
  cases hsink : env.chat.sendPrivgroup with
  | none => exact Yields.pure rfl
  | some send =>
    obtain ⟨u, hu⟩ := isOk_iff.mp (hsend send hsink w.tick message)
    exact returns_external hu rfl

/-- An announcement looks its item up, if it has one. -/
theorem returns_announce_of {env : Env} {aoid : Option ℤ} {b : Bool}
    (hup : env.dbFault w.tick = none)
    (hread : readSetting env w.db "LogToPrivateChannel" = .ok (.bool b))
    (hlookups : ∀ a ∈ aoid, ∀ t, (env.getItem t a).isOk = true)
    (hsend : ∀ send ∈ env.chat.sendPrivgroup, ∀ t message, (send t message).isOk = true)
    (action : String) : Returns (announce env player action aoid) w fun _ w' => w'.db = w.db := by
  have hget : Returns (getBool env "LogToPrivateChannel") w fun _ w' => w'.db = w.db := by
    rw [Returns, Yields, run_getBool_ok hup hread]
    rfl
  refine hget.bind fun on w₁ hon => ?_
  cases on with
  | false => exact Yields.pure hon
  | true =>
    rw [← hon]
    cases aoid with
    | none => exact returns_sendPrivgroup hsend _
    | some a =>
      have hitem : Returns (getItem env a) w₁ fun _ w' => w'.db = w₁.db := by
        obtain ⟨item, hitem⟩ := isOk_iff.mp (hlookups a rfl w₁.tick)
        exact returns_external hitem rfl
      refine hitem.bind fun item w₂ hsame => ?_
      rw [← hsame]
      cases item with
      | none => exact returns_sendPrivgroup hsend _
      | some i => exact returns_sendPrivgroup hsend _

theorem returns_announce (h : SettingsRun app w) (serving : Serving app.env player)
    (action : String) (aoid : Option ℤ) :
    Returns (announce app.env player action aoid) w fun _ w' => w'.db = w.db := by
  obtain ⟨b, hread⟩ := @SettingsRun.reads_bool app w h "LogToPrivateChannel" (by decide)
  exact returns_announce_of (serving.up _) hread (fun a _ t => serving.lookups t a)
    serving.privgroup action

theorem returns_announceTracked (h : SettingsRun app w) (serving : Serving app.env player)
    (itemName : String) : Returns (announceTracked app.env itemName false) w fun _ w' =>
      w'.db = w.db := by
  refine (returns_getBool h serving.up (by decide)).bind fun on w₁ hon => ?_
  cases on with
  | false => exact Yields.pure hon.2
  | true =>
    rw [← hon.2]
    exact returns_sendPrivgroup serving.privgroup _

theorem returns_logAction_of {env : Env} {aoid : Option ℤ} {b : Bool}
    (hup : ∀ t, env.dbFault t = none) (hname : env.storable player = true)
    (hread : readSetting env w.db "LogToPrivateChannel" = .ok (.bool b))
    (hlookups : ∀ a ∈ aoid, ∀ t, (env.getItem t a).isOk = true)
    (hsend : ∀ send ∈ env.chat.sendPrivgroup, ∀ t message, (send t message).isOk = true)
    (haoid : ∀ a ∈ aoid, Fits a) (action : String) :
    Returns (logAction env player action aoid) w fun _ w' => ∃ row : MarketUserAction,
      (row.player = player ∧ row.action = action ∧ row.aoid = aoid) ∧
        w'.db = w.db.insertAction row := by
  have hint : int8 (aoid.getD 0) = .ok () := by
    cases aoid with
    | none => exact int8_ok (by decide)
    | some a => exact int8_ok (haoid a rfl)
  have hrow : Returns (MarketRepo.logAction env player action aoid) w fun _ w' =>
      ∃ row : MarketUserAction, (row.player = player ∧ row.action = action ∧ row.aoid = aoid) ∧
        w'.db = w.db.insertAction row := by
    have htext : text env player = .ok () := if_pos hname
    apply returns_statement (hup _)
    · rw [htext, ok_bind, hint, ok_bind]
      rfl
    · exact ⟨_, ⟨rfl, rfl, rfl⟩, rfl⟩
  refine hrow.bind fun _ w₁ hw₁ => ?_
  obtain ⟨row, hfields, hdb⟩ := hw₁
  have hread₁ : readSetting env w₁.db "LogToPrivateChannel" = .ok (.bool b) := by
    rw [hdb]
    exact hread
  exact (returns_announce_of (hup _) hread₁ hlookups hsend action).mono
    (fun _ _ hsame => ⟨row, hfields, hsame.trans hdb⟩) fun _ _ h => h

theorem returns_logAction (h : SettingsRun app w) (serving : Serving app.env player)
    (action : String) {aoid : Option ℤ} (haoid : ∀ a ∈ aoid, Fits a) :
    Returns (logAction app.env player action aoid) w fun _ w' =>
      ∃ row, w'.db = w.db.insertAction row := by
  obtain ⟨b, hread⟩ := @SettingsRun.reads_bool app w h "LogToPrivateChannel" (by decide)
  have hlog := returns_logAction_of serving.up serving.name hread
    (fun a _ t => serving.lookups t a) serving.privgroup haoid action
  refine hlog.mono (fun _ w' hrow => ?_) fun _ _ h => h
  obtain ⟨row, _, hdb⟩ := hrow
  exact ⟨row, hdb⟩

/-! Tracking -/

theorem returns_upsertWatch (serving : Serving app.env player) {aoid : ℤ} (haoid : Fits aoid)
    {item : Item} (hitem : ItemFits app.env item) :
    Returns (upsertWatch app.env aoid item.name item.ql item.icon false) w fun _ w' =>
      aoid ∈ w'.db.watch.map MarketWatch.aoid := by
  have hicon : int4 (item.icon.getD 0) = .ok () := by
    cases hsome : item.icon with
    | none => exact int4_ok (by decide)
    | some icon => exact int4_ok (hitem.2.2 icon hsome)
  have hname : text app.env item.name = .ok () := if_pos hitem.1
  have hget : Returns (getWatch app.env aoid) w fun _ w' => w'.db = w.db := by
    apply returns_query (serving.up _)
    · rw [int8_ok haoid]
      rfl
    · rfl
  refine hget.bind fun existing w₁ _ => ?_
  refine Returns.bind (Q := fun _ w' => aoid ∈ w'.db.watch.map MarketWatch.aoid) ?_
    fun _ _ hmem => Yields.pure hmem
  cases hrow : lookup MarketWatch.aoid aoid w₁.db.watch with
  | some row =>
    have hmem := (lookup_eq_some w₁.db.sound.watch_key).mp hrow
    have hold : aoid ∈ w₁.db.watch.map MarketWatch.aoid := hmem.2 ▸ List.mem_map_of_mem hmem.1
    apply returns_statement (serving.up _)
    · rw [hname, ok_bind, int4_ok hitem.2.1, ok_bind, hicon, ok_bind, hrow]
      rfl
    · rwa [Db.aoids_updateWatch]
  | none =>
    obtain ⟨db, hdb⟩ := (@Db.insertWatch_accepts w₁.db
      { aoid := aoid, name := item.name, ql := item.ql, icon := item.icon,
        firstSeen := app.env.clock w₁.tick, lastPolled := none, autoTracked := false }).mpr
      (lookup_eq_none.mp hrow)
    apply returns_statement (serving.up _)
    · rw [hname, ok_bind, int4_ok hitem.2.1, ok_bind, hicon, ok_bind, hrow]
      simp only [hdb, orRefused, ok_bind]
      rfl
    · rw [(Db.insertWatch_eq_some hdb).2]
      simp

/-- Tracking an item that fits returns, with the item tracked and the players' rows as before. -/
theorem returns_watchItem (h : SettingsRun app w) (serving : Serving app.env player) {aoid : ℤ}
    (haoid : Fits aoid) {item : Item} (hitem : ItemFits app.env item) :
    Returns (watchItem app.env aoid item.name item.ql item.icon false) w fun _ w' =>
      aoid ∈ w'.db.watch.map MarketWatch.aoid ∧ w'.db.settings = w.db.settings ∧
        rowsOf w'.db = rowsOf w.db := by
  have hkeeps : Keeps (fun op => op = .upsertWatch aoid)
      (upsertWatch app.env aoid item.name item.ql item.icon false) :=
    keeps_upsertWatch (A := fun op => op = .upsertWatch aoid) rfl _ _ _ _
  have hsettings := hkeeps.yields (f := fun db => db.settings)
    (fun op db db' note hop heffect => heffect.settings_eq (by simp [hop])) w
  have hrows := yields_beside (Coro.Frames.mono hkeeps fun _ _ hs =>
    hs.mono fun _ hop => Or.inr ⟨aoid, hop⟩) w
  refine (((returns_upsertWatch serving haoid hitem).and hsettings).and hrows).bind ?_
  rintro isNew w₁ ⟨⟨hmem, hsame⟩, hrows⟩
  cases isNew with
  | false => exact Yields.pure ⟨hmem, hsame, hrows⟩
  | true =>
    have h₁ : SettingsRun app w₁ := h.elsewhere hsame
    refine (returns_announceTracked h₁ serving item.name).bind fun _ w₂ hdb => Yields.pure ?_
    rw [hdb]
    exact ⟨hmem, hsame, hrows⟩

/-! Replies -/

/-- The errors the dispatcher turns into text. -/
def Reported (e : PyErr) : Prop := ∃ m, e = .market m

/-- The run returns or raises a reported error. -/
abbrev Replies {α : Type} (p : M α) (w : World) : Prop :=
  Yields p w (fun _ _ => True) fun e _ => Reported e

/-- The run raises an error that is not reported. -/
abbrev Escapes {α : Type} (p : M α) (w : World) : Prop :=
  Yields p w (fun _ _ => False) fun e _ => ¬ Reported e

theorem not_reported_database : ¬ Reported .database := fun ⟨_, h⟩ => nomatch h

theorem Escapes.bind {α β : Type} {p : M α} {f : α → M β} (h : Escapes p w) :
    Escapes (p >>= f) w :=
  Yields.bind h fun _ _ hq => hq.elim

/-- A statement the server refuses. -/
theorem escapes_statement {α : Type} {call : Call} {f : ℕ → Db → Except PyErr (α × Db × List Event)}
    (hup : app.env.dbFault w.tick = none) (h : f w.tick w.db = .error .database) :
    Escapes (statement app.env call f) w := by
  rw [Escapes, Yields, run_statement_error hup h]
  exact not_reported_database

theorem escapes_query {α : Type} {call : Call} {f : ℕ → Db → Except PyErr α} {note : List Event}
    (hup : app.env.dbFault w.tick = none) (h : f w.tick w.db = .error .database) :
    Escapes (query app.env call f note) w := by
  rw [Escapes, Yields, run_query_error hup h]
  exact not_reported_database

/-! Players -/

theorem returns_isRegistered (serving : Serving app.env player) :
    Returns (isRegistered app.env player) w fun b w' =>
      (b = true ↔ player ∈ w.db.users.map MarketUser.player) ∧ w'.db = w.db := by
  have hname : text app.env player = .ok () := if_pos serving.name
  have hget : Returns (getUser app.env player) w fun user w' =>
      user = lookup MarketUser.player player w.db.users ∧ w'.db = w.db := by
    apply returns_query (serving.up _)
    · rw [hname, ok_bind]
      rfl
    · exact ⟨rfl, rfl⟩
  refine hget.bind fun user w₁ huser => Yields.pure ⟨?_, huser.2⟩
  rw [huser.1]
  by_cases hmem : player ∈ w.db.users.map MarketUser.player
  · have hsome := mt lookup_eq_none.mp (not_not_intro hmem)
    simp only [Option.isSome_iff_ne_none, hmem, iff_true]
    exact hsome
  · simp only [lookup_eq_none.mpr hmem, Option.isSome_none, Bool.false_eq_true, hmem]

theorem returns_insertUser (serving : Serving app.env player)
    (hnew : player ∉ w.db.users.map MarketUser.player) :
    Returns (MarketRepo.register app.env player) w fun _ w' =>
      player ∈ w'.db.users.map MarketUser.player ∧ w'.db.settings = w.db.settings ∧
        w'.db.apiKeys = w.db.apiKeys := by
  have hname : text app.env player = .ok () := if_pos serving.name
  obtain ⟨db, hdb⟩ := (@Db.insertUser_accepts w.db { player := player, isAdmin := false }).mpr hnew
  apply returns_statement (serving.up _)
  · rw [hname, ok_bind, hdb]
    rfl
  · rw [Db.insertUser_eq_some hdb]
    simp

/-- A registration is made, or an error is raised that becomes a reply. -/
theorem replies_register (h : SettingsRun app w) (serving : Serving app.env player) :
    Replies (register app.env player) w := by
  refine (returns_isRegistered serving).bind fun registered w₁ hregistered => ?_
  cases registered with
  | true => exact Yields.throw ⟨_, rfl⟩
  | false =>
    have hnew : player ∉ w₁.db.users.map MarketUser.player := by
      rw [hregistered.2]
      exact mt hregistered.1.mpr (by decide)
    refine (returns_insertUser serving hnew).bind fun _ w₂ huser => ?_
    have h₂ : SettingsRun app w₂ := h.elsewhere (huser.2.1.trans (by rw [hregistered.2]))
    exact (returns_logAction h₂ serving "register" (by simp)).mono (fun _ _ _ => trivial)
      fun _ _ hno => hno.elim

theorem replies_unregister (h : SettingsRun app w) (serving : Serving app.env player) :
    Replies (unregister app.env player) w := by
  refine (returns_isRegistered serving).bind fun registered w₁ hregistered => ?_
  cases registered with
  | false => exact Yields.throw ⟨_, rfl⟩
  | true =>
    have hname : text app.env player = .ok () := if_pos serving.name
    have herase : Returns (unregisterCascade app.env player) w₁ fun _ w' =>
        w'.db.settings = w₁.db.settings := by
      refine Returns.bind (Q := fun _ w' => w'.db = w₁.db) ?_ fun count w₂ hdb => ?_
      · apply returns_query (serving.up _)
        · rw [hname, ok_bind]
          rfl
        · rfl
      · refine Returns.bind (Q := fun _ w' => w'.db.settings = w₁.db.settings) ?_
          fun _ _ hsame => Yields.pure hsame
        apply returns_statement (serving.up _) rfl
        rw [hdb]
        rfl
    refine herase.bind fun removed w₂ hsame => ?_
    have h₂ : SettingsRun app w₂ := h.elsewhere (hsame.trans (by rw [hregistered.2]))
    exact (returns_announce h₂ serving "unregister" none).bind fun _ _ _ => Yields.pure trivial

/-! Subscriptions -/

section Subscriptions
variable {aoid : ℤ}

theorem returns_getSubscription (serving : Serving app.env player) (haoid : Fits aoid) :
    Returns (getSubscription app.env player aoid) w fun sub w' =>
      sub = lookup MarketSubscription.key (player, aoid) w.db.subscriptions ∧ w'.db = w.db := by
  have hname : text app.env player = .ok () := if_pos serving.name
  apply returns_query (serving.up _)
  · rw [hname, ok_bind, int8_ok haoid, ok_bind]
    rfl
  · exact ⟨rfl, rfl⟩

theorem escapes_getSubscription (serving : Serving app.env player) (haoid : ¬ Fits aoid) :
    Escapes (getSubscription app.env player aoid) w := by
  have hname : text app.env player = .ok () := if_pos serving.name
  apply escapes_query (serving.up _)
  rw [hname, ok_bind, int8_error haoid, error_bind]

theorem escapes_logAction (serving : Serving app.env player) (action : String)
    (haoid : ¬ Fits aoid) : Escapes (logAction app.env player action (some aoid)) w := by
  have hname : text app.env player = .ok () := if_pos serving.name
  have hint : int8 ((some aoid).getD 0) = .error .database := int8_error haoid
  refine Escapes.bind (escapes_statement (serving.up _) ?_)
  rw [hname, ok_bind, hint, error_bind]

theorem returns_countSubscriptions (serving : Serving app.env player) :
    Returns (countSubscriptions app.env player) w fun _ w' => w'.db = w.db := by
  have hname : text app.env player = .ok () := if_pos serving.name
  apply returns_query (serving.up _)
  · rw [hname, ok_bind]
    rfl
  · rfl

/-- From the limit check on the subscription is made, or an error is reported. -/
theorem replies_subscribeWithin (h : SettingsRun app w) (serving : Serving app.env player)
    (haoid : Fits aoid) {item : Item} (hitem : ItemFits app.env item)
    (hplayer : player ∈ w.db.users.map MarketUser.player)
    (hnew : (player, aoid) ∉ w.db.subscriptions.map MarketSubscription.key) :
    Replies (subscribeWithin app.env player aoid item) w := by
  refine (returns_getInt h serving.up (by decide)).bind fun limit w₁ hlimit => ?_
  refine (returns_countSubscriptions serving).bind fun count w₂ hcount => ?_
  have hdb : w₂.db = w.db := hcount.trans hlimit
  by_cases hfull : limit ≤ count
  · rw [if_pos hfull]
    exact Yields.throw ⟨_, rfl⟩
  · rw [if_neg hfull]
    have h₂ : SettingsRun app w₂ := h.elsewhere (by rw [hdb])
    refine (returns_watchItem h₂ serving haoid hitem).bind fun _ w₃ hw₃ => ?_
    obtain ⟨hwatch, hsettings, hrows⟩ := hw₃
    rw [hdb] at hsettings hrows
    have husers : w₃.db.users = w.db.users := congrArg PlayerOperations.Rows.users hrows
    have hsubs : w₃.db.subscriptions = w.db.subscriptions :=
      congrArg PlayerOperations.Rows.subscriptions hrows
    obtain ⟨db, hinsert⟩ := (@Db.insertSubscription_accepts w₃.db
      { player := player, aoid := aoid, createdAt := app.env.clock w₃.tick }).mpr
      ⟨by rw [hsubs]; exact hnew, by rw [husers]; exact hplayer, hwatch⟩
    have hadd : Returns (addSubscription app.env player aoid) w₃ fun _ w' =>
        w'.db.settings = w₃.db.settings := by
      apply returns_statement (serving.up _)
      · rw [hinsert]
        rfl
      · rw [Db.insertSubscription_eq_some hinsert]
    refine hadd.bind fun _ w₄ hadded => ?_
    have h₄ : SettingsRun app w₄ := h.elsewhere (hadded.trans hsettings)
    have hlog := @returns_logAction app player w₄ h₄ serving "watch" (some aoid) (by simp [haoid])
    exact hlog.bind fun _ _ _ => Yields.pure trivial

theorem replies_subscribe (h : SettingsRun app w) (serving : Serving app.env player)
    (haoid : Fits aoid ∨ app.env.getItem w.tick aoid = .ok none) :
    Replies (subscribe app.env player aoid) w := by
  refine (returns_getItem serving aoid).bind fun item w₁ hitem => ?_
  cases item with
  | none => exact Yields.throw ⟨_, rfl⟩
  | some item =>
    have hfits : Fits aoid := haoid.resolve_right (by rw [hitem.1]; simp)
    refine (returns_isRegistered serving).bind fun registered w₂ hregistered => ?_
    have hdb₂ : w₂.db = w.db := hregistered.2.trans hitem.2
    cases registered with
    | false =>
      have h₂ : SettingsRun app w₂ := h.elsewhere (by rw [hdb₂])
      have hlog := @returns_logAction app player w₂ h₂ serving "watch_denied" (some aoid)
        (by simp [hfits])
      exact hlog.bind fun _ _ _ => Yields.throw ⟨_, rfl⟩
    | true =>
      refine (returns_getSubscription serving hfits).bind fun sub w₃ hsub => ?_
      have hdb₃ : w₃.db = w.db := hsub.2.trans hdb₂
      cases sub with
      | some s => exact Yields.throw ⟨_, rfl⟩
      | none =>
        apply replies_subscribeWithin (h.elsewhere (by rw [hdb₃])) serving hfits
        · exact serving.items _ _ _ hitem.1
        · rw [hdb₃, ← hitem.2]
          exact hregistered.1.mp rfl
        · rw [hdb₃, ← hdb₂]
          exact lookup_eq_none.mp hsub.1.symm

/-- Otherwise the driver refuses the id, and no reply is made of that error. -/
theorem escapes_subscribe (serving : Serving app.env player)
    (haoid : ¬ (Fits aoid ∨ app.env.getItem w.tick aoid = .ok none)) :
    Escapes (subscribe app.env player aoid) w := by
  obtain ⟨hfits, hknown⟩ := not_or.mp haoid
  refine (returns_getItem serving aoid).bind fun item w₁ hitem => ?_
  cases item with
  | none => exact absurd hitem.1 hknown
  | some item =>
    refine (returns_isRegistered serving).bind fun registered w₂ _ => ?_
    cases registered with
    | false => exact Escapes.bind (escapes_logAction serving "watch_denied" hfits)
    | true => exact Escapes.bind (escapes_getSubscription serving hfits)

/-- A delete says whether there was a row, and is logged either way. -/
theorem returns_unsubscribe_of {env : Env} {b : Bool} (hup : ∀ t, env.dbFault t = none)
    (hname : env.storable player = true)
    (hread : readSetting env w.db "LogToPrivateChannel" = .ok (.bool b))
    (hlookups : ∀ t, (env.getItem t aoid).isOk = true)
    (hsend : ∀ send ∈ env.chat.sendPrivgroup, ∀ t message, (send t message).isOk = true)
    (haoid : Fits aoid) :
    Returns (unsubscribe env player aoid) w fun deleted w' =>
      deleted = (w.db.subscriptions.any fun s => s.key == (player, aoid)) ∧
      ∃ row : MarketUserAction,
        (row.player = player ∧ row.action = "unwatch" ∧ row.aoid = some aoid) ∧
        w'.db = (w.db.deleteSubscriptions fun s => s.key == (player, aoid)).insertAction row := by
  have htext : text env player = .ok () := if_pos hname
  have hdelete : Returns (deleteSubscription env player aoid) w fun deleted w' =>
      deleted = (w.db.subscriptions.any fun s => s.key == (player, aoid)) ∧
        w'.db = w.db.deleteSubscriptions fun s => s.key == (player, aoid) := by
    apply returns_statement (hup _)
    · rw [htext, ok_bind, int8_ok haoid, ok_bind]
      rfl
    · exact ⟨rfl, rfl⟩
  refine hdelete.bind fun deleted w₁ hw₁ => ?_
  have hread₁ : readSetting env w₁.db "LogToPrivateChannel" = .ok (.bool b) := by
    rw [hw₁.2]
    exact hread
  have hlookup : ∀ a ∈ some aoid, ∀ t, (env.getItem t a).isOk = true := by
    intro a ha
    rwa [← Option.some.inj ha]
  have hfits : ∀ a ∈ some aoid, Fits a := by
    intro a ha
    rwa [← Option.some.inj ha]
  have hlog := @returns_logAction_of player w₁ env (some aoid) b hup hname hread₁ hlookup hsend
    hfits "unwatch"
  refine hlog.bind fun _ w₂ hrow => Yields.pure ⟨hw₁.1, ?_⟩
  obtain ⟨row, hfields, hdb⟩ := hrow
  exact ⟨row, hfields, by rw [hdb, hw₁.2]⟩

theorem returns_unsubscribe (h : SettingsRun app w) (serving : Serving app.env player)
    (haoid : Fits aoid) :
    Returns (unsubscribe app.env player aoid) w fun _ w' => w'.db.settings = w.db.settings := by
  obtain ⟨b, hread⟩ := @SettingsRun.reads_bool app w h "LogToPrivateChannel" (by decide)
  have hone := returns_unsubscribe_of serving.up serving.name hread
    (fun t => serving.lookups t aoid) serving.privgroup haoid
  refine hone.mono (fun _ w' hw' => ?_) fun _ _ h => h
  obtain ⟨_, row, _, hdb⟩ := hw'
  rw [hdb]
  rfl

theorem escapes_unsubscribe (serving : Serving app.env player) (haoid : ¬ Fits aoid) :
    Escapes (unsubscribe app.env player aoid) w := by
  have hname : text app.env player = .ok () := if_pos serving.name
  refine Escapes.bind (escapes_statement (serving.up _) ?_)
  rw [hname, ok_bind, int8_error haoid, error_bind]

theorem returns_unsubscribeEach (h : SettingsRun app w) (serving : Serving app.env player)
    {aoids : List ℤ} (haoids : ∀ a ∈ aoids, Fits a) :
    Returns (unsubscribeEach app.env player aoids) w fun _ _ => True := by
  induction aoids generalizing w with
  | nil => exact Yields.pure trivial
  | cons a rest ih =>
    obtain ⟨ha, hrest⟩ := List.forall_mem_cons.mp haoids
    refine (returns_unsubscribe h serving ha).bind fun deleted w₁ hsame => ?_
    refine (ih (h.elsewhere hsame) hrest).bind fun others w₂ _ => ?_
    cases deleted with
    | true => exact Yields.pure trivial
    | false => exact Yields.pure trivial

/-- The loop ends at the first number that does not fit. -/
theorem escapes_unsubscribeEach (h : SettingsRun app w) (serving : Serving app.env player)
    {aoids : List ℤ} (haoids : ∃ a ∈ aoids, ¬ Fits a) :
    Escapes (unsubscribeEach app.env player aoids) w := by
  induction aoids generalizing w with
  | nil => simp at haoids
  | cons a rest ih =>
    by_cases ha : Fits a
    · refine (returns_unsubscribe h serving ha).bind fun deleted w₁ hsame => ?_
      refine Escapes.bind (ih (h.elsewhere hsame) ?_)
      obtain ⟨b, hb, hbad⟩ := haoids
      rcases List.mem_cons.mp hb with rfl | hb
      · exact absurd ha hbad
      · exact ⟨b, hb, hbad⟩
    · exact Escapes.bind (escapes_unsubscribe serving ha)

theorem returns_unsubscribeAll (h : SettingsRun app w) (serving : Serving app.env player) :
    Returns (unsubscribeAll app.env player) w fun _ _ => True := by
  refine Returns.bind (Q := fun _ w' => w'.db.settings = w.db.settings) ?_ fun count w₁ hsame => ?_
  · refine (returns_countSubscriptions serving).bind fun count w₁ hdb => ?_
    refine Returns.bind (Q := fun _ w' => w'.db.settings = w.db.settings) ?_
      fun _ _ hsame => Yields.pure hsame
    apply returns_statement (serving.up _) rfl
    rw [hdb]
    rfl
  · have h₁ : SettingsRun app w₁ := h.elsewhere hsame
    exact (returns_logAction h₁ serving "unwatch_all" (by simp)).bind fun _ _ _ => Yields.pure trivial

end Subscriptions

end Calls

end AoMarket.ServiceCalls
