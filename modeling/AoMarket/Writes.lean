import AoMarket.AutoTrack
import AoMarket.Polling

/-!
What one awaited call can do. A call either leaves the database as it is, noting
messages at most, or performs one of the writes below; `Effect` says what each
write does and which events it notes (some only note one). `Steps A` is the frame of a coroutine all of whose writes are in
`A`, and there is one lemma a repository or service method. What a whole run can
change is then read off the writes it is made of.
-/

namespace AoMarket.Writes

open Coroutine Outcomes Relational Models Database Environment MarketRepo SettingsRepo

inductive Write where
  | insertUser (player : String)
  | eraseUser (player : String)
  | upsertWatch (aoid : ℤ)
  | setLastPolled (aoid ts : ℤ)
  | unflag
  | deleteWatch (aoid : ℤ)
  | clearWatch
  | deleteStale (aoids : List ℤ)
  | insertHistory (aoid cycle : ℤ)
  | pruneHistory
  | insertSubscription (player : String) (aoid : ℤ)
  | deleteSubscription (player : String) (aoid : ℤ)
  | deleteSubscriptions (player : String)
  | updateFilter (player : String) (aoid : ℤ)
  | replaceSeen (aoid : ℤ)
  | queueAlert (player : String) (aoid : ℤ)
  | fetch (aoid : ℤ)
  | notify (aoid : ℤ)
  | alertTell (player : String) (aoid : ℤ)
  | deleteAlerts (player : String)
  | insertAction
  | createKey (player : String)
  | revokeKeys (player : String)
  | touchKey
  | setting
  | backoff

/-- Messages that are not alerts. -/
def plain : Event → Bool
  | .tell _ _ | .privgroup _ | .reply _ _ => true
  | _ => false

def Silent (note : List Event) : Prop := ∀ e ∈ note, plain e = true

inductive Effect : Write → Db → Db → List Event → Prop where
  | insertUser {db db' : Db} (player : String)
      (h : db.insertUser { player := player, isAdmin := false } = some db') :
      Effect (.insertUser player) db db' []
  | eraseUser (db : Db) (player : String) :
      Effect (.eraseUser player) db (MarketRepo.eraseUser db player) []
  | insertWatch {db db' : Db} (row : MarketWatch) (hnew : row.lastPolled = none)
      (h : db.insertWatch row = some db') :
      Effect (.upsertWatch row.aoid) db db' [.created row.aoid]
  | updateWatch (db : Db) (aoid : ℤ) (f : MarketWatch → MarketWatch)
      (hf : ∀ r, (f r).aoid = r.aoid)
      (hkeep : ∀ r, (f r).firstSeen = r.firstSeen ∧ (f r).lastPolled = r.lastPolled) :
      Effect (.upsertWatch aoid) db (db.updateWatch (fun r => r.aoid == aoid) f hf) []
  | setLastPolled (db : Db) (aoid ts : ℤ) :
      Effect (.setLastPolled aoid ts) db
        (db.updateWatch (fun r => r.aoid == aoid) (fun r => { r with lastPolled := some ts })
          fun _ => rfl) []
  | unflag (db : Db) (p : MarketWatch → Bool) :
      Effect .unflag db
        (db.updateWatch p (fun r => { r with autoTracked := false }) fun _ => rfl) []
  | deleteWatch (db : Db) (aoid : ℤ) :
      Effect (.deleteWatch aoid) db (db.deleteWatch fun r => r.aoid == aoid) []
  | clearWatch (db : Db) : Effect .clearWatch db (db.deleteWatch fun _ => true) []
  | deleteStale (db : Db) (aoids : List ℤ) :
      Effect (.deleteStale aoids) db (db.deleteWatch fun r => aoids.contains r.aoid) []
  | insertHistory {db db' : Db} (row : MarketHistory) (cycle : ℤ)
      (h : db.insertHistory row = some db') :
      Effect (.insertHistory row.aoid cycle) db db' [.snapshot row.aoid cycle]
  | pruneHistory (db : Db) (p : MarketHistory → Bool) :
      Effect .pruneHistory db (db.deleteHistory p) []
  | insertSubscription {db db' : Db} (row : MarketSubscription)
      (h : db.insertSubscription row = some db') :
      Effect (.insertSubscription row.player row.aoid) db db' []
  | deleteSubscription (db : Db) (player : String) (aoid : ℤ) :
      Effect (.deleteSubscription player aoid) db
        (db.deleteSubscriptions fun s => s.key == (player, aoid)) []
  | deleteSubscriptions (db : Db) (player : String) :
      Effect (.deleteSubscriptions player) db
        (db.deleteSubscriptions fun s => s.player == player) []
  | updateFilter (db : Db) (player : String) (aoid : ℤ)
      (f : MarketSubscription → MarketSubscription) (hf : ∀ r, (f r).key = r.key) :
      Effect (.updateFilter player aoid) db
        (db.updateSubscriptions (fun s => s.key == (player, aoid)) f hf) []
  | replaceSeen (db : Db) (aoid : ℤ) (fingerprints : List String) :
      Effect (.replaceSeen aoid) db (db.replaceSeen aoid fingerprints)
        [.replaced aoid fingerprints]
  | queueAlert (db : Db) (player : String) (aoid : ℤ) (message : String) (now : ℤ)
      (orders : List (String × OrderBook.NewOrder)) :
      Effect (.queueAlert player aoid) db (db.insertAlert player aoid message now)
        [.alerted player aoid orders false]
  | fetch (db : Db) (aoid : ℤ) (book : OrderBook.Orders) :
      Effect (.fetch aoid) db db [.fetched aoid book]
  | notify (db : Db) (aoid : ℤ) (orders : List (String × OrderBook.NewOrder)) :
      Effect (.notify aoid) db db [.notified aoid orders]
  | alertTell (db : Db) (player : String) (aoid : ℤ) (message : String)
      (orders : List (String × OrderBook.NewOrder)) :
      Effect (.alertTell player aoid) db db
        [.tell player message, .alerted player aoid orders true]
  | deleteAlerts (db : Db) (player : String) (ids : List ℕ) :
      Effect (.deleteAlerts player) db (db.deleteAlerts fun a => ids.contains a.id) []
  | insertAction (db : Db) (row : MarketUserAction) :
      Effect .insertAction db (db.insertAction row) []
  | createKey {db db' : Db} (player keyHash keyPrefix : String) (now : ℤ)
      (h : db.insertApiKey player keyHash keyPrefix now = some db') :
      Effect (.createKey player) db db' []
  | revokeKeys (db : Db) (player : String) (now : ℤ) :
      Effect (.revokeKeys player) db
        (db.updateApiKeys (fun k => k.player == player && AuthService.activeKey k)
          (fun k => { k with revokedAt := some now }) fun _ => ⟨rfl, rfl, rfl⟩) []
  | touchKey (db : Db) (keyId : ℕ) (now : ℤ) :
      Effect .touchKey db
        (db.updateApiKeys (fun k => k.id == keyId)
          (fun k => { k with lastUsedAt := some now }) fun _ => ⟨rfl, rfl, rfl⟩) []
  | seedSettings (db : Db) (rows : List Setting) :
      Effect .setting db (rows.foldl Db.seedSetting db) []
  | updateSetting (db : Db) (key value : String) :
      Effect .setting db (db.updateSetting key value) []
  | upsertBackoff (db : Db) (row : AodbLookupBackoff) :
      Effect .backoff db (db.upsertBackoff row) []
  | deleteBackoff (db : Db) (p : AodbLookupBackoff → Bool) :
      Effect .backoff db (db.deleteBackoff p) []

/-- A call whose writes are in `A`. -/
structure Steps (A : Write → Prop) (w w' : World) : Prop where
  tick : w'.tick = w.tick + 1
  effect : ∃ note, w'.log = w.log ++ note ∧
    ((w'.db = w.db ∧ Silent note) ∨ ∃ op, A op ∧ Effect op w.db w'.db note)

theorem Silent.nil : Silent [] := by
  intro e he
  cases he

variable {A : Write → Prop} {env : Env} {α : Type}

theorem Steps.mono {B : Write → Prop} {w w' : World} (h : Steps A w w')
    (hAB : ∀ op, A op → B op) : Steps B w w' := by
  obtain ⟨htick, note, hlog, hdb⟩ := h
  refine ⟨htick, note, hlog, ?_⟩
  rcases hdb with hsame | ⟨op, hop, heffect⟩
  · exact Or.inl hsame
  · exact Or.inr ⟨op, hAB op hop, heffect⟩

theorem Steps.next (w : World) : Steps A w w.next :=
  ⟨rfl, [], by simp [World.next], Or.inl ⟨rfl, Silent.nil⟩⟩

theorem Steps.noted {w : World} {note : List Event} (h : Silent note) :
    Steps A w { w.next with log := w.log ++ note } :=
  ⟨rfl, note, rfl, Or.inl ⟨rfl, h⟩⟩

/-- A coroutine all of whose writes are in `A`. -/
abbrev Keeps (A : Write → Prop) (p : M α) : Prop := p.Frames (Steps A)

theorem keeps_query {call : Call} {f : ℕ → Db → Except PyErr α} {note : List Event}
    (h : Silent note) : Keeps A (query env call f note) :=
  frames_query Steps.next fun _ => Steps.noted h

theorem keeps_external {call : Call} {f : ℕ → Except PyErr α} {note : α → List Event}
    (h : ∀ a, Silent (note a)) : Keeps A (external call f note) :=
  frames_external Steps.next fun _ a => Steps.noted (h a)

theorem keeps_statement {call : Call} {f : ℕ → Db → Except PyErr (α × Db × List Event)}
    (h : ∀ tick db a db' note, f tick db = .ok (a, db', note) →
      ∃ op, A op ∧ Effect op db db' note) : Keeps A (statement env call f) := by
  apply frames_statement Steps.next
  intro w a db note hf
  exact ⟨rfl, note, rfl, Or.inr (h _ _ _ _ _ hf)⟩

/-- What holds over every step and composes holds over a whole run. -/
theorem Keeps.run_of_steps {R : World → World → Prop} {p : M α} (h : Keeps A p)
    (hrefl : ∀ w, R w w) (htrans : ∀ {a b c}, R a b → R b c → R a c)
    (hR : ∀ w w', Steps A w w' → R w w') (w : World) : R w (p.run w).2 :=
  Coro.Frames.run hrefl htrans (Coro.Frames.mono h hR) w

/-- An invariant of the steps is one of the whole run. -/
theorem Keeps.run_inv {I : World → Prop} {p : M α} (h : Keeps A p)
    (hI : ∀ w w', Steps A w w' → I w → I w') {w : World} (hw : I w) : I (p.run w).2 :=
  h.run_of_steps (R := fun w w' => I w → I w') (fun _ => id) (fun hab hbc h => hbc (hab h)) hI w hw

/-- A coroutine without writes leaves the database as it is. -/
theorem Keeps.db_eq {p : M α} (h : Keeps (fun _ => False) p) (w : World) :
    (p.run w).2.db = w.db := by
  refine h.run_of_steps (R := fun w w' => w'.db = w.db) (fun _ => rfl)
    (fun hab hbc => hbc.trans hab) ?_ w
  intro w w' hs
  obtain ⟨_, note, _, ⟨hdb, _⟩ | ⟨op, hop, _⟩⟩ := hs
  · exact hdb
  · exact hop.elim

theorem Keeps.db_of_run {p : M α} (h : Keeps (fun _ => False) p) {w w' : World}
    {r : Except PyErr α} (hrun : p.run w = (r, w')) : w'.db = w.db := by
  have hdb := h.db_eq w
  rwa [hrun] at hdb

/-- Where what follows writes nothing, the database is that of the first part. -/
theorem run_bind_db {β : Type} {p : M α} {f : α → M β} (hf : ∀ a, Keeps (fun _ => False) (f a))
    (w : World) : ((p >>= f).run w).2.db = (p.run w).2.db := by
  rw [Coro.run_bind]
  split
  · next a s h => rw [(hf a).db_eq, h]
  · next e s h => rw [h]

theorem run_handle_db {p : M α} {f : PyErr → M α} (hf : ∀ e, Keeps (fun _ => False) (f e))
    (w : World) : ((tryCatch p f).run w).2.db = (p.run w).2.db := by
  rw [Coro.run_handle]
  split
  · next a s h => rw [h]
  · next e s h => rw [(hf e).db_eq, h]

/-! Repositories -/

theorem orRefused_eq_ok {db : Option Db} {db' : Db} (h : orRefused db = .ok db') :
    db = some db' := by
  cases db with
  | none => cases h
  | some d =>
    cases h
    rfl

/-- A statement that checks its parameters and then performs one fixed write. -/
theorem keeps_checked {call : Call} {check : Except PyErr Unit} {a : ℕ → Db → α}
    {change : ℕ → Db → Db} {note : List Event} {op : Write} (hop : A op)
    (h : ∀ tick db, Effect op db (change tick db) note) :
    Keeps A (statement env call fun tick db => do
      check
      return (a tick db, change tick db, note)) := by
  apply keeps_statement
  intro tick db a' db' note' hf
  obtain ⟨_, _, hf⟩ := except_bind_eq_ok.mp hf
  cases hf
  exact ⟨op, hop, h tick db⟩

/-- A statement that performs one fixed write. -/
theorem keeps_write {call : Call} {a : ℕ → Db → α} {change : ℕ → Db → Db} {note : List Event}
    {op : Write} (hop : A op) (h : ∀ tick db, Effect op db (change tick db) note) :
    Keeps A (statement env call fun tick db => .ok (a tick db, change tick db, note)) := by
  apply keeps_statement
  intro tick db a' db' note' hf
  cases hf
  exact ⟨op, hop, h tick db⟩

theorem keeps_getUser (player : String) : Keeps A (getUser env player) :=
  keeps_query Silent.nil

theorem keeps_isRegistered (player : String) : Keeps A (isRegistered env player) :=
  Coro.Frames.bind (keeps_getUser player) fun _ => Coro.Frames.pure _

theorem keeps_repoRegister {player : String} (h : A (.insertUser player)) :
    Keeps A (MarketRepo.register env player) := by
  apply keeps_statement
  intro tick db a db' note hf
  obtain ⟨_, _, hf⟩ := except_bind_eq_ok.mp hf
  obtain ⟨db₁, hdb, hf⟩ := except_bind_eq_ok.mp hf
  cases hf
  exact ⟨_, h, .insertUser player (orRefused_eq_ok hdb)⟩

theorem keeps_unregisterCascade {player : String} (h : A (.eraseUser player)) :
    Keeps A (unregisterCascade env player) := by
  refine Coro.Frames.bind (keeps_query Silent.nil) fun _ => ?_
  refine Coro.Frames.bind ?_ fun _ => Coro.Frames.pure _
  exact keeps_write h fun _ db => .eraseUser db player

theorem keeps_getWatch (aoid : ℤ) : Keeps A (getWatch env aoid) := keeps_query Silent.nil

theorem keeps_upsertWatch {aoid : ℤ} (h : A (.upsertWatch aoid)) (name : String) (ql : ℤ)
    (icon : Option ℤ) (auto : Bool) : Keeps A (upsertWatch env aoid name ql icon auto) := by
  refine Coro.Frames.bind (keeps_getWatch aoid) fun _ => ?_
  refine Coro.Frames.bind ?_ fun _ => Coro.Frames.pure _
  apply keeps_statement
  intro tick db a db' note hf
  obtain ⟨_, _, hf⟩ := except_bind_eq_ok.mp hf
  obtain ⟨_, _, hf⟩ := except_bind_eq_ok.mp hf
  obtain ⟨_, _, hf⟩ := except_bind_eq_ok.mp hf
  split at hf
  · obtain ⟨db₁, hdb, hf⟩ := except_bind_eq_ok.mp hf
    cases hf
    exact ⟨_, h, .insertWatch _ rfl (orRefused_eq_ok hdb)⟩
  · cases hf
    exact ⟨_, h, .updateWatch db aoid _ (by intro r; rfl) (by intro r; exact ⟨rfl, rfl⟩)⟩

theorem keeps_deleteWatch {aoid : ℤ} (h : A (.deleteWatch aoid)) :
    Keeps A (deleteWatch env aoid) :=
  keeps_checked h fun _ db => .deleteWatch db aoid

theorem keeps_countWatch (auto : Option Bool) : Keeps A (countWatch env auto) :=
  keeps_query Silent.nil

theorem keeps_clearWatch (h : A .clearWatch) : Keeps A (clearWatch env) := by
  refine Coro.Frames.bind (keeps_countWatch none) fun _ => ?_
  refine Coro.Frames.bind ?_ fun _ => Coro.Frames.pure _
  exact keeps_write h fun _ db => .clearWatch db

theorem keeps_expireStaleWatch (h : ∀ aoids, A (.deleteStale aoids)) (cutoff : ℤ) :
    Keeps A (expireStaleWatch env cutoff) := by
  refine Coro.Frames.bind (keeps_query Silent.nil) fun aoids => ?_
  split
  · refine Coro.Frames.bind ?_ fun _ => Coro.Frames.pure _
    exact keeps_write (h aoids) fun _ db => .deleteStale db aoids
  · exact Coro.Frames.pure _

theorem keeps_updateLastPolled {aoid ts : ℤ} (h : A (.setLastPolled aoid ts)) :
    Keeps A (updateLastPolled env aoid ts) :=
  keeps_write h fun _ db => .setLastPolled db aoid ts

theorem keeps_unflagAutotrackNotIn (h : A .unflag) (keepAoids : List ℤ) :
    Keeps A (unflagAutotrackNotIn env keepAoids) :=
  keeps_checked h fun _ db => .unflag db _

theorem keeps_existingAoids (aoids : List ℤ) : Keeps A (existingAoids env aoids) := by
  unfold existingAoids
  split
  · exact Coro.Frames.pure _
  · exact keeps_query Silent.nil

theorem keeps_insertSnapshot {cycle aoid : ℤ} {began : Option ℕ} (h : A (.insertHistory aoid cycle))
    (sells buys : ℕ) (minSell maxBuy : PyText.PyVal) (avgSell avgBuy : PyNumber.PyNum)
    (anchorSells anchorBuys : ℕ) :
    Keeps A (insertSnapshot env cycle began aoid sells buys minSell maxBuy avgSell avgBuy
      anchorSells anchorBuys) := by
  apply keeps_statement
  intro tick db a db' note hf
  obtain ⟨_, _, hf⟩ := except_bind_eq_ok.mp hf
  obtain ⟨_, _, hf⟩ := except_bind_eq_ok.mp hf
  obtain ⟨_, _, hf⟩ := except_bind_eq_ok.mp hf
  obtain ⟨_, _, hf⟩ := except_bind_eq_ok.mp hf
  obtain ⟨db₁, hdb, hf⟩ := except_bind_eq_ok.mp hf
  cases hf
  exact ⟨_, h, .insertHistory _ cycle (orRefused_eq_ok hdb)⟩

theorem keeps_pruneHistory (h : A .pruneHistory) (cutoff : ℤ) :
    Keeps A (pruneHistory env cutoff) :=
  keeps_write h fun _ db => .pruneHistory db _

theorem keeps_getSubscription (player : String) (aoid : ℤ) :
    Keeps A (getSubscription env player aoid) := keeps_query Silent.nil

theorem keeps_countSubscriptions (player : String) : Keeps A (countSubscriptions env player) :=
  keeps_query Silent.nil

theorem keeps_addSubscription {player : String} {aoid : ℤ}
    (h : A (.insertSubscription player aoid)) : Keeps A (addSubscription env player aoid) := by
  apply keeps_statement
  intro tick db a db' note hf
  obtain ⟨db₁, hdb, hf⟩ := except_bind_eq_ok.mp hf
  cases hf
  exact ⟨_, h, .insertSubscription _ (orRefused_eq_ok hdb)⟩

theorem keeps_deleteSubscription {player : String} {aoid : ℤ}
    (h : A (.deleteSubscription player aoid)) :
    Keeps A (deleteSubscription env player aoid) := by
  apply keeps_statement
  intro tick db a db' note hf
  obtain ⟨_, _, hf⟩ := except_bind_eq_ok.mp hf
  obtain ⟨_, _, hf⟩ := except_bind_eq_ok.mp hf
  cases hf
  exact ⟨_, h, .deleteSubscription db player aoid⟩

theorem keeps_deleteAllSubscriptions {player : String} (h : A (.deleteSubscriptions player)) :
    Keeps A (deleteAllSubscriptions env player) := by
  refine Coro.Frames.bind (keeps_countSubscriptions player) fun _ => ?_
  refine Coro.Frames.bind ?_ fun _ => Coro.Frames.pure _
  exact keeps_write h fun _ db => .deleteSubscriptions db player

theorem keeps_updateFilter {player : String} {aoid : ℤ} (h : A (.updateFilter player aoid))
    (check : Except PyErr Unit) (f : MarketSubscription → MarketSubscription)
    (hf : ∀ r, (f r).key = r.key) : Keeps A (updateFilter env player aoid check f hf) := by
  apply keeps_statement
  intro tick db a db' note hres
  obtain ⟨_, _, hres⟩ := except_bind_eq_ok.mp hres
  obtain ⟨_, _, hres⟩ := except_bind_eq_ok.mp hres
  obtain ⟨_, _, hres⟩ := except_bind_eq_ok.mp hres
  cases hres
  exact ⟨_, h, .updateFilter db player aoid f hf⟩

theorem keeps_updatePriceFilter {player : String} {aoid : ℤ}
    (h : A (.updateFilter player aoid)) (lo hi : Option ℤ) :
    Keeps A (updatePriceFilter env player aoid lo hi) := keeps_updateFilter h _ _ _

theorem keeps_updateQlFilter {player : String} {aoid : ℤ}
    (h : A (.updateFilter player aoid)) (lo hi : Option ℤ) :
    Keeps A (updateQlFilter env player aoid lo hi) := keeps_updateFilter h _ _ _

theorem keeps_repoClearFilter {player : String} {aoid : ℤ} (h : A (.updateFilter player aoid)) :
    Keeps A (MarketRepo.clearFilter env player aoid) := keeps_updateFilter h _ _ _

theorem keeps_subscribersForAoid {aoid : ℤ} (h : A (.notify aoid))
    (orders : List (String × OrderBook.NewOrder)) :
    Keeps A (subscribersForAoid env aoid [.notified aoid orders]) := by
  unfold subscribersForAoid query
  apply keeps_statement
  intro tick db a db' note hf
  cases hf
  exact ⟨_, h, .notify db aoid orders⟩

theorem keeps_getSeenFingerprints (aoid : ℤ) : Keeps A (getSeenFingerprints env aoid) :=
  keeps_query Silent.nil

theorem keeps_replaceSeenFingerprints {aoid : ℤ} (h : A (.replaceSeen aoid))
    (fingerprints : List String) : Keeps A (replaceSeenFingerprints env aoid fingerprints) :=
  keeps_checked h fun _ db => .replaceSeen db aoid fingerprints

theorem keeps_queuePendingAlert {player : String} {aoid : ℤ} (h : A (.queueAlert player aoid))
    (message : String) (orders : List (String × OrderBook.NewOrder)) :
    Keeps A (queuePendingAlert env player aoid message [.alerted player aoid orders false]) :=
  keeps_checked h fun _ db => .queueAlert db player aoid message _ orders

theorem keeps_popPendingAlerts {player : String} (h : A (.deleteAlerts player)) :
    Keeps A (popPendingAlerts env player) := by
  refine Coro.Frames.bind (keeps_query Silent.nil) fun alerts => ?_
  split
  · refine Coro.Frames.bind ?_ fun _ => Coro.Frames.pure _
    exact keeps_write h fun _ db => .deleteAlerts db player _
  · exact Coro.Frames.pure _

theorem keeps_repoLogAction (h : A .insertAction) (player action : String) (aoid : Option ℤ) :
    Keeps A (MarketRepo.logAction env player action aoid) := by
  apply keeps_statement
  intro tick db a db' note hf
  obtain ⟨_, _, hf⟩ := except_bind_eq_ok.mp hf
  obtain ⟨_, _, hf⟩ := except_bind_eq_ok.mp hf
  cases hf
  exact ⟨_, h, .insertAction db _⟩

/-! Settings, keys and backoff -/

theorem keeps_get (key : String) : Keeps A (get env key) :=
  Coro.Frames.bind (keeps_query Silent.nil) fun _ => Coro.Frames.ofExcept _

theorem keeps_getBool (key : String) : Keeps A (getBool env key) := by
  refine Coro.Frames.bind (keeps_get key) fun v => ?_
  cases v with
  | bool b => exact Coro.Frames.pure b
  | _ => exact Coro.Frames.throw _

theorem keeps_getInt (key : String) : Keeps A (getInt env key) := by
  refine Coro.Frames.bind (keeps_get key) fun v => ?_
  cases v with
  | int n => exact Coro.Frames.pure n
  | _ => exact Coro.Frames.throw _

theorem keeps_getStr (key : String) : Keeps A (getStr env key) := by
  refine Coro.Frames.bind (keeps_get key) fun v => ?_
  cases v with
  | str s => exact Coro.Frames.pure s
  | _ => exact Coro.Frames.throw _

theorem keeps_set (h : A .setting) (key : String) (value : SettingValue) :
    Keeps A (set env key value) := by
  refine Coro.Frames.bind (keeps_query Silent.nil) fun row => ?_
  refine Coro.Frames.bind (Coro.Frames.ofExcept _) fun newValue => ?_
  exact keeps_checked h fun _ db => .updateSetting db key newValue

theorem keeps_revokeAllForPlayer {player : String} (h : A (.revokeKeys player)) :
    Keeps A (AuthService.revokeAllForPlayer env player) :=
  keeps_checked h fun tick db => .revokeKeys db player (env.clock tick)

theorem keeps_create {player : String} (h : A (.createKey player)) (keyHash keyPrefix : String) :
    Keeps A (AuthService.create env player keyHash keyPrefix) := by
  apply keeps_statement
  intro tick db a db' note hf
  obtain ⟨db₁, hdb, hf⟩ := except_bind_eq_ok.mp hf
  cases hf
  exact ⟨_, h, .createKey player keyHash keyPrefix _ (orRefused_eq_ok hdb)⟩

theorem keeps_isAdminPlayer (player : String) : Keeps A (AuthService.isAdminPlayer env player) := by
  unfold AuthService.isAdminPlayer
  split
  · exact Coro.Frames.pure _
  · refine Coro.Frames.bind (keeps_getUser player) fun user => ?_
    cases user with
    | none => exact Coro.Frames.pure _
    | some u => exact Coro.Frames.pure _

theorem keeps_authenticate (h : A .touchKey) (token : String) :
    Keeps A (AuthService.authenticate env token) := by
  refine Coro.Frames.bind (keeps_query Silent.nil) fun key => ?_
  cases key with
  | none => exact Coro.Frames.pure _
  | some k =>
    refine Coro.Frames.bind (keeps_write h fun tick db => .touchKey db k.id _) fun _ => ?_
    exact Coro.Frames.bind (keeps_isAdminPlayer _) fun _ => Coro.Frames.pure _

theorem keeps_generateKey {player : String} (hu : A (.insertUser player))
    (hr : A (.revokeKeys player)) (hc : A (.createKey player)) :
    Keeps A (AuthService.generateKey env player) := by
  refine Coro.Frames.bind (keeps_isRegistered player) fun registered => ?_
  have hrest : Keeps A (do
      let _ ← AuthService.revokeAllForPlayer env player
      let raw ← AuthService.generateToken env
      AuthService.create env player (env.hash raw) (AuthService.tokenPrefix raw)
      return raw) := by
    refine Coro.Frames.bind (keeps_revokeAllForPlayer hr) fun _ => ?_
    refine Coro.Frames.bind (keeps_external fun _ => Silent.nil) fun raw => ?_
    exact Coro.Frames.bind (keeps_create hc _ _) fun _ => Coro.Frames.pure _
  cases registered with
  | false => exact Coro.Frames.bind (keeps_repoRegister hu) fun _ => hrest
  | true => exact hrest

theorem keeps_recordFailure (h : A .backoff) (aoid : ℤ) :
    Keeps A (AodbBackoffRepo.recordFailure env aoid) := by
  refine Coro.Frames.bind (keeps_external fun _ => Silent.nil) fun now => ?_
  refine Coro.Frames.bind (keeps_query Silent.nil) fun existing => ?_
  dsimp only
  split
  · exact Coro.Frames.throw _
  · exact keeps_checked h fun _ db => .upsertBackoff db _

theorem keeps_recordSuccess (h : A .backoff) (aoid : ℤ) :
    Keeps A (AodbBackoffRepo.recordSuccess env aoid) :=
  keeps_checked h fun _ db => .deleteBackoff db _

theorem keeps_dueForRetry (aoids : List ℤ) : Keeps A (AodbBackoffRepo.dueForRetry env aoids) := by
  unfold AodbBackoffRepo.dueForRetry
  split
  · exact Coro.Frames.pure _
  · refine Coro.Frames.bind (keeps_external fun _ => Silent.nil) fun now => ?_
    exact Coro.Frames.bind (keeps_query Silent.nil) fun _ => Coro.Frames.pure _

/-! Whole runs, table by table -/

/-- What every allowed write does to the database, the whole run does. -/
theorem Keeps.run_rel {R : Db → Db → Prop} {p : M α} (h : Keeps A p) (hrefl : ∀ db, R db db)
    (htrans : ∀ {a b c}, R a b → R b c → R a c)
    (hR : ∀ op db db' note, A op → Effect op db db' note → R db db') (w : World) :
    R w.db (p.run w).2.db := by
  refine h.run_of_steps (R := fun w w' => R w.db w'.db) (fun w => hrefl w.db) htrans ?_ w
  intro w w' hs
  obtain ⟨_, note, _, ⟨hdb, _⟩ | ⟨op, hop, heffect⟩⟩ := hs
  · rw [hdb]
    exact hrefl w.db
  · exact hR op _ _ note hop heffect

/-- What the allowed writes leave alone, the whole run leaves alone. -/
theorem Keeps.run_eq {β : Type} {p : M α} {f : Db → β} (h : Keeps A p)
    (hf : ∀ op db db' note, A op → Effect op db db' note → f db' = f db) (w : World) :
    f (p.run w).2.db = f w.db :=
  h.run_rel (R := fun db db' => f db' = f db) (fun _ => rfl) (fun hab hbc => hbc.trans hab) hf w

theorem Keeps.eq_of_run {β : Type} {p : M α} {f : Db → β} (h : Keeps A p)
    (hf : ∀ op db db' note, A op → Effect op db db' note → f db' = f db) {w w' : World}
    {r : Except PyErr α} (hrun : p.run w = (r, w')) : f w'.db = f w.db := by
  have hsame := h.run_eq hf w
  rwa [hrun] at hsame

/-- However a run ends, what its writes leave alone is as before. -/
theorem Keeps.yields {β : Type} {p : M α} {f : Db → β} (h : Keeps A p)
    (hf : ∀ op db db' note, A op → Effect op db db' note → f db' = f db) (w : World) :
    Yields p w (fun _ t => f t.db = f w.db) fun _ t => f t.db = f w.db :=
  .of_run (fun _ _ hrun => h.eq_of_run hf hrun) fun _ _ hrun => h.eq_of_run hf hrun

/-- Time only passes. -/
theorem Keeps.run_tick_le {p : M α} (h : Keeps A p) (w : World) : w.tick ≤ (p.run w).2.tick := by
  refine h.run_of_steps (R := fun w w' => w.tick ≤ w'.tick) (fun _ => le_refl _) le_trans ?_ w
  intro w w' hs
  have htick := hs.tick
  omega

theorem Keeps.tick_of_run {p : M α} (h : Keeps A p) {w w' : World} {r : Except PyErr α}
    (hrun : p.run w = (r, w')) : w.tick ≤ w'.tick := by
  have htick := h.run_tick_le w
  rwa [hrun] at htick

/-- The log only grows, by events of the allowed kinds. -/
theorem Keeps.run_log {p : M α} {N : Event → Prop} (h : Keeps A p)
    (hplain : ∀ e, plain e = true → N e)
    (hN : ∀ op db db' note, A op → Effect op db db' note → ∀ e ∈ note, N e) (w : World) :
    ∃ note, (p.run w).2.log = w.log ++ note ∧ ∀ e ∈ note, N e := by
  refine h.run_of_steps (R := fun w w' => ∃ note, w'.log = w.log ++ note ∧ ∀ e ∈ note, N e)
    ?_ ?_ ?_ w
  · exact fun w => ⟨[], by simp, by simp⟩
  · rintro a b c ⟨l, hl, hNl⟩ ⟨l', hl', hNl'⟩
    refine ⟨l ++ l', by rw [hl', hl, List.append_assoc], ?_⟩
    intro e he
    rcases List.mem_append.mp he with he | he
    · exact hNl e he
    · exact hNl' e he
  · intro w w' hs
    obtain ⟨_, note, hlog, ⟨_, hsilent⟩ | ⟨op, hop, heffect⟩⟩ := hs
    · exact ⟨note, hlog, fun e he => hplain e (hsilent e he)⟩
    · exact ⟨note, hlog, hN op _ _ note hop heffect⟩

theorem Effect.seen_eq {op : Write} {db db' : Db} {note : List Event} {aoid : ℤ}
    (h : Effect op db db' note) (hop : op ≠ .replaceSeen aoid) :
    seenFingerprints db' aoid = seenFingerprints db aoid := by
  have hsame : ∀ {d : Db}, d.seenOrders = db.seenOrders →
      seenFingerprints d aoid = seenFingerprints db aoid := by
    intro d hd
    rw [seenFingerprints, hd, seenFingerprints]
  cases h with
  | insertUser player h => exact hsame (by rw [Db.insertUser_eq_some h])
  | insertWatch row hnew h => exact hsame (by rw [(Db.insertWatch_eq_some h).2])
  | insertHistory row cycle h => exact hsame (by rw [Db.insertHistory_eq_some h])
  | insertSubscription row h => exact hsame (by rw [Db.insertSubscription_eq_some h])
  | createKey player keyHash keyPrefix now h => exact hsame (by rw [Db.insertApiKey_eq_some h])
  | seedSettings _ rows =>
    obtain ⟨settings, hs⟩ := Db.seedSettings_tables rows db
    exact hsame (by rw [hs])
  | replaceSeen _ other fingerprints =>
    have hne : other ≠ aoid := fun heq => hop (by rw [heq])
    exact seen_replaceSeen_of_ne hne db fingerprints
  | _ => exact hsame rfl

def TouchesWatch : Write → Prop
  | .upsertWatch _ | .setLastPolled _ _ | .unflag | .deleteWatch _ | .clearWatch
  | .deleteStale _ => True
  | _ => False

theorem Effect.watch_eq {op : Write} {db db' : Db} {note : List Event}
    (h : Effect op db db' note) (hop : ¬ TouchesWatch op) : db'.watch = db.watch := by
  cases h with
  | insertUser player h => rw [Db.insertUser_eq_some h]
  | insertHistory row cycle h => rw [Db.insertHistory_eq_some h]
  | insertSubscription row h => rw [Db.insertSubscription_eq_some h]
  | createKey player keyHash keyPrefix now h => rw [Db.insertApiKey_eq_some h]
  | seedSettings _ rows =>
    obtain ⟨settings, hs⟩ := Db.seedSettings_tables rows db
    rw [hs]
  | insertWatch | updateWatch | setLastPolled | unflag | deleteWatch | clearWatch
  | deleteStale => exact absurd trivial hop
  | _ => rfl

def TouchesSubscriptions : Write → Prop
  | .eraseUser _ | .deleteWatch _ | .clearWatch | .deleteStale _ | .insertSubscription _ _
  | .deleteSubscription _ _ | .deleteSubscriptions _ | .updateFilter _ _ => True
  | _ => False

theorem Effect.subscriptions_eq {op : Write} {db db' : Db} {note : List Event}
    (h : Effect op db db' note) (hop : ¬ TouchesSubscriptions op) :
    db'.subscriptions = db.subscriptions := by
  cases h with
  | insertUser player h => rw [Db.insertUser_eq_some h]
  | insertWatch row hnew h => rw [(Db.insertWatch_eq_some h).2]
  | insertHistory row cycle h => rw [Db.insertHistory_eq_some h]
  | createKey player keyHash keyPrefix now h => rw [Db.insertApiKey_eq_some h]
  | seedSettings _ rows =>
    obtain ⟨settings, hs⟩ := Db.seedSettings_tables rows db
    rw [hs]
  | eraseUser | deleteWatch | clearWatch | deleteStale | insertSubscription
  | deleteSubscription | deleteSubscriptions | updateFilter => exact absurd trivial hop
  | _ => rfl

def TouchesAlerts : Write → Prop
  | .eraseUser _ | .queueAlert _ _ | .deleteAlerts _ => True
  | _ => False

theorem Effect.alerts_eq {op : Write} {db db' : Db} {note : List Event}
    (h : Effect op db db' note) (hop : ¬ TouchesAlerts op) :
    db'.pendingAlerts = db.pendingAlerts := by
  cases h with
  | insertUser player h => rw [Db.insertUser_eq_some h]
  | insertWatch row hnew h => rw [(Db.insertWatch_eq_some h).2]
  | insertHistory row cycle h => rw [Db.insertHistory_eq_some h]
  | insertSubscription row h => rw [Db.insertSubscription_eq_some h]
  | createKey player keyHash keyPrefix now h => rw [Db.insertApiKey_eq_some h]
  | seedSettings _ rows =>
    obtain ⟨settings, hs⟩ := Db.seedSettings_tables rows db
    rw [hs]
  | eraseUser | queueAlert | deleteAlerts => exact absurd trivial hop
  | _ => rfl

theorem Effect.backoff_eq {op : Write} {db db' : Db} {note : List Event}
    (h : Effect op db db' note) (hop : op ≠ .backoff) : db'.lookupBackoff = db.lookupBackoff := by
  cases h with
  | insertUser player h => rw [Db.insertUser_eq_some h]
  | insertWatch row hnew h => rw [(Db.insertWatch_eq_some h).2]
  | insertHistory row cycle h => rw [Db.insertHistory_eq_some h]
  | insertSubscription row h => rw [Db.insertSubscription_eq_some h]
  | createKey player keyHash keyPrefix now h => rw [Db.insertApiKey_eq_some h]
  | seedSettings _ rows =>
    obtain ⟨settings, hs⟩ := Db.seedSettings_tables rows db
    rw [hs]
  | upsertBackoff | deleteBackoff => exact absurd rfl hop
  | _ => rfl

theorem Effect.settings_eq {op : Write} {db db' : Db} {note : List Event}
    (h : Effect op db db' note) (hop : op ≠ .setting) : db'.settings = db.settings := by
  cases h with
  | insertUser player h => rw [Db.insertUser_eq_some h]
  | insertWatch row hnew h => rw [(Db.insertWatch_eq_some h).2]
  | insertHistory row cycle h => rw [Db.insertHistory_eq_some h]
  | insertSubscription row h => rw [Db.insertSubscription_eq_some h]
  | createKey player keyHash keyPrefix now h => rw [Db.insertApiKey_eq_some h]
  | seedSettings | updateSetting => exact absurd rfl hop
  | _ => rfl

end AoMarket.Writes
