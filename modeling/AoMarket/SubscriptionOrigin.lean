import AoMarket.Authority
import AoMarket.CommandReplies
import AoMarket.WatchOrigin

/-!
Who asked for a subscription. Whatever runs side by side, a subscription that was not there at
the start was asked for by its player, in a message or by a request with a key that may, and
the task that made it had read that the item exists and that the player is registered.
-/

namespace AoMarket.SubscriptionOrigin

open Coroutine Interleaving Reliance Recording Tracing Relational Regex PyText Models Database
  Environment MarketService Commands Runner Writes ServiceWrites ChatWrites HttpAccess HttpWrites
  Authority WatchOrigin Concurrency
open MarketRepo (isRegistered getUser addSubscription)
open HttpRoutes (App Request serve guardOf)

/-- The task subscribes the player to the item, and may. -/
inductive Wanted (env : Env) (turn : World → Prop) (task : Task) (player : String)
    (aoid : ℤ) : Prop
  | tell (nameForId : ℕ → Option String) (tell : InboundTell) (gs : Groups)
      (htask : task = .activity (.tell nameForId tell))
      (hplayer : playerName nameForId tell.senderId = player)
      (hcommand : selectCommand tell.message = some (.watchAoid, gs))
      (haoid : parseInt env.py.decimal (textOf gs 1) = some aoid)
  | request (xApiKey : Option String)
      (htask : task = .activity (.request xApiKey (.subscribe player aoid)))
      (hallowed : Authorised env turn xApiKey (.player player))

def Registered (db : Db) (player : String) : Prop := ∃ u ∈ db.users, u.player = player

/-- It was wanted, the item service knew the item, and the player was registered. -/
structure Requested (env : Env) (turn : World → Prop) (task : Task) (player : String)
    (aoid : ℤ) : Prop where
  wanted : Wanted env turn task player aoid
  answered : ∃ item, Answered env turn aoid item
  registered : ∃ read, turn read ∧ Registered read.db player

/-- The subscriptions that a run has left were asked for. -/
structure Consented {ι : Type} (env : Env) (tasks : ι → Task) (start : World)
    (t : Recorded ι World) : Prop where
  ticks : ∀ u, t.Saw u → u.tick ≤ t.now.tick
  requested : ∀ s ∈ t.now.db.subscriptions, (∃ r ∈ start.db.subscriptions, r.key = s.key) ∨
    ∃ i, Requested env (t.Turn i) (tasks i) s.player s.aoid

variable {ι : Type} {i : ι} {env : Env} {tasks : ι → Task} {start : World}
  {t u : Recorded ι World} {player : String} {aoid : ℤ}

section Turns
variable {turn turn' : World → Prop} {task : Task} (hmore : ∀ w, turn w → turn' w)
include hmore

theorem Wanted.mono (h : Wanted env turn task player aoid) :
    Wanted env turn' task player aoid := by
  cases h with
  | tell nameForId tell gs htask hplayer hcommand haoid =>
    exact .tell nameForId tell gs htask hplayer hcommand haoid
  | request xApiKey htask hallowed => exact .request xApiKey htask (hallowed.mono hmore)

theorem Requested.mono (h : Requested env turn task player aoid) :
    Requested env turn' task player aoid := by
  obtain ⟨hwanted, ⟨item, hitem⟩, read, hread, hregistered⟩ := h
  exact ⟨hwanted.mono hmore, ⟨item, hitem.mono hmore⟩, read, hmore _ hread, hregistered⟩

end Turns

/-! Everything but a new subscription -/

def Quiet (op : Write) : Prop := ∀ player aoid, op ≠ .insertSubscription player aoid

theorem keys_of_effect {op : Write} {db db' : Db} {note : List Event}
    (h : Effect op db db' note) (hop : Quiet op) :
    ∀ s ∈ db'.subscriptions, ∃ r ∈ db.subscriptions, r.key = s.key := by
  intro s hs
  by_cases htouches : TouchesSubscriptions op
  · cases h with
    | insertSubscription row => exact absurd rfl (hop row.player row.aoid)
    | updateFilter _ player aoid f hf =>
      obtain ⟨r, hr, rfl⟩ := List.mem_map.mp hs
      refine ⟨r, hr, ?_⟩
      split
      · exact (hf r).symm
      · rfl
    | deleteWatch | clearWatch | deleteStale => exact ⟨s, (mem_cascade.mp hs).1, rfl⟩
    | deleteSubscription | deleteSubscriptions => exact ⟨s, (mem_deleteRows.mp hs).1, rfl⟩
    | eraseUser => exact ⟨s, (mem_deleteRows.mp (mem_cascade.mp hs).1).1, rfl⟩
    | _ => exact htouches.elim
  · rw [h.subscriptions_eq htouches] at hs
    exact ⟨s, hs, rfl⟩

/-- A turn on record keeps the invariant if every new row was requested. -/
theorem consented_move (ht : Consented env tasks start t) {w : World}
    (htick : t.now.tick ≤ w.tick)
    (hrows : ∀ s ∈ w.db.subscriptions, (∃ r ∈ t.now.db.subscriptions, r.key = s.key) ∨
      ∃ j, Requested env ((t.move i w).Turn j) (tasks j) s.player s.aoid) :
    Consented env tasks start (t.move i w) := by
  refine ⟨tick_le_move ht.ticks htick, fun s hs => ?_⟩
  rcases hrows s hs with ⟨r, hr, hkey⟩ | hnew
  · rcases ht.requested r hr with ⟨old, hold, hsame⟩ | ⟨j, hrequested⟩
    · exact Or.inl ⟨old, hold, hsame.trans hkey⟩
    · obtain ⟨hplayer, haoid⟩ := Prod.mk.inj hkey
      rw [← hplayer, ← haoid]
      exact Or.inr ⟨j, hrequested.mono ((later_move i w t).turn j)⟩
  · exact Or.inr hnew

theorem consented_quiet {w : World} (h : Steps Quiet t.now w) (ht : Consented env tasks start t) :
    Consented env tasks start (t.move i w) := by
  obtain ⟨htick, note, _, hdb⟩ := h
  refine consented_move ht (by omega) fun s hs => Or.inl ?_
  rcases hdb with ⟨hsame, _⟩ | ⟨op, hop, heffect⟩
  · rw [hsame] at hs
    exact ⟨s, hs, rfl⟩
  · exact keys_of_effect heffect hop s hs

theorem consented_start (env : Env) (tasks : ι → Task) (w : World) :
    Consented env tasks w ⟨w, []⟩ where
  ticks := tick_le_start w
  requested := fun s hs => Or.inl ⟨s, hs, rfl⟩

instance : Accountable (Consented env tasks start) (Steps Quiet) where
  ticks := fun _ u h hu => h.ticks u hu
  quiet := fun _ _ _ hs h => consented_quiet hs h
  next := Steps.next

theorem quiet_of_ticks (w w' : World) (h : Ticks w w') : Steps Quiet w w' :=
  h.steps (by simp [Quiet])

theorem quiet_of_silent (w w' : World) (h : Steps (fun _ => False) w w') : Steps Quiet w w' :=
  h.mono fun _ => False.elim

/-! Subscribing -/

/-- A player found registered was registered in a turn of the task. -/
theorem accounts_isRegistered (ht : Consented env tasks start t) (player : String) :
    Accounts (Consented env tasks start) i (isRegistered env player) t fun b u =>
      b = true → ∃ read, u.Turn i read ∧ Registered read.db player := by
  refine Accounts.bind ht (accounts_read quiet_of_ticks ht) fun user u hu _ hread => ?_
  obtain ⟨read, hturn, hread⟩ := hread
  obtain ⟨_, _, hread⟩ := except_bind_eq_ok.mp hread
  cases hread
  refine Accounts.pure hu fun hsome => ⟨read, hturn, ?_⟩
  obtain ⟨row, hrow⟩ := Option.isSome_iff_exists.mp hsome
  obtain ⟨hmem, hplayer⟩ := (lookup_eq_some read.db.sound.user_key).mp hrow
  exact ⟨row, hmem, hplayer⟩

/-- The one insert of a subscription is of a requested row. -/
theorem accounts_addSubscription (ht : Consented env tasks start t)
    (h : Requested env (t.Turn i) (tasks i) player aoid) :
    Accounts (Consented env tasks start) i (addSubscription env player aoid) t
      fun _ _ => True := by
  refine accounts_statement ht fun u hu hlater _ db note hres => ⟨?_, trivial⟩
  obtain ⟨db', hdb, hres⟩ := except_bind_eq_ok.mp hres
  cases hres
  refine consented_move hu (Nat.le_succ _) fun s hs => ?_
  have hinserted := congrArg Tables.subscriptions
    (Db.insertSubscription_eq_some (orRefused_eq_ok hdb))
  rw [hinserted] at hs
  rcases List.mem_append.mp hs with hold | hnew
  · exact Or.inl ⟨s, hold, rfl⟩
  · rw [List.mem_singleton.mp hnew]
    exact Or.inr ⟨i, (h.mono (hlater.turn i)).mono ((later_move i _ u).turn i)⟩

/-- The row is inserted for a player who is registered and an item that is known. -/
theorem accounts_subscribeWithin (ht : Consented env tasks start t) (item : Item)
    (h : Requested env (t.Turn i) (tasks i) player aoid) :
    Accounts (Consented env tasks start) i (subscribeWithin env player aoid item) t
      fun _ _ => True := by
  have hquiet : Quiet (.upsertWatch aoid) ∧ Quiet .insertAction := by simp [Quiet]
  refine Accounts.bind ht (accounts_quiet (keeps_getInt _) ht) fun limit u hu hlater _ => ?_
  replace h := h.mono (hlater.turn i)
  refine Accounts.bind hu (accounts_quiet (keeps_countSubscriptions player) hu)
    fun count u hu hlater _ => ?_
  replace h := h.mono (hlater.turn i)
  split
  · exact accounts_quiet (Coro.Frames.throw _) hu
  · refine Accounts.bind hu (accounts_quiet (keeps_watchItem hquiet.1 _ _ _ _) hu)
      fun _ u hu hlater _ => ?_
    replace h := h.mono (hlater.turn i)
    refine Accounts.bind hu (accounts_addSubscription hu h) fun _ v hv _ _ => ?_
    exact Accounts.bind hv (accounts_quiet (keeps_logAction hquiet.2 _ _ _) hv)
      fun _ x hx _ _ => Accounts.pure hx trivial

theorem accounts_subscribe (ht : Consented env tasks start t)
    (hwanted : Wanted env (t.Turn i) (tasks i) player aoid) :
    Accounts (Consented env tasks start) i (subscribe env player aoid) t fun _ _ => True := by
  have haction : Quiet .insertAction := by simp [Quiet]
  refine Accounts.bind ht (accounts_answer quiet_of_silent ht aoid) fun item u hu hlater hitem => ?_
  replace hwanted := hwanted.mono (hlater.turn i)
  cases item with
  | none => exact accounts_quiet (Coro.Frames.throw _) hu
  | some item =>
    refine Accounts.bind hu (accounts_isRegistered hu player) fun b v hv hlater hread => ?_
    replace hwanted := hwanted.mono (hlater.turn i)
    cases b with
    | false =>
      refine accounts_quiet ?_ hv
      exact Coro.Frames.bind (keeps_logAction haction _ _ _) fun _ => Coro.Frames.throw _
    | true =>
      have hrequested : Requested env (v.Turn i) (tasks i) player aoid :=
        ⟨hwanted, ⟨item, (hitem item rfl).mono (hlater.turn i)⟩, hread rfl⟩
      refine Accounts.bind hv (accounts_quiet (keeps_getSubscription player aoid) hv)
        fun sub x hx hlater _ => ?_
      cases sub with
      | some s => exact accounts_quiet (Coro.Frames.throw _) hx
      | none => exact accounts_subscribeWithin hx item (hrequested.mono (hlater.turn i))

/-! Commands -/

theorem quiet_of_commandWrites {name : Command} {gs : Groups} (hname : name ≠ .watchAoid)
    {op : Write} (h : CommandWrites player name gs op) : Quiet op := by
  rintro player aoid rfl
  cases name with
  | watchAoid => exact hname rfl
  | unregister | untrackAll | apikeyRevoke => cases h.2
  | register => rcases h with h | h <;> cases h
  | apikeyGenerate => rcases h with h | h | h <;> cases h
  | filterPrice | filterQl | filterClear | overview =>
    obtain ⟨_, h⟩ := h
    cases h
  | unwatchAll => rcases h.2 with h | h <;> cases h
  | unwatchBulk | unwatch => rcases h with h | ⟨_, h⟩ <;> cases h
  | _ => exact h.elim

theorem accounts_parseAoid (ht : Consented env tasks start t) (digits : String) :
    Accounts (Consented env tasks start) i (parseAoid env digits) t fun aoid _ =>
      parseInt env.py.decimal digits = some aoid := by
  unfold parseAoid
  cases parseInt env.py.decimal digits with
  | none => exact Does.throw ht trivial
  | some n => exact Accounts.pure ht rfl

theorem accounts_handleTell (ht : Consented env tasks start t) {nameForId : ℕ → Option String}
    {tell : InboundTell} (htask : tasks i = .activity (.tell nameForId tell)) :
    Accounts (Consented env tasks start) i (handleTell env nameForId tell) t fun _ _ => True := by
  have hsetting : Quiet .setting := by simp [Quiet]
  refine accounts_tell quiet_of_silent ht (accounts_quiet (keeps_handleAdminCommand hsetting _) ht)
    fun u hu _ => accounts_selected quiet_of_silent hu fun name gs v hcommand hv _ => ?_
  by_cases hname : name = .watchAoid
  · subst hname
    refine Accounts.bind hv (accounts_parseAoid hv (textOf gs 1)) fun aoid x hx _ haoid => ?_
    exact Accounts.bind hx (accounts_subscribe hx (.tell nameForId tell gs htask rfl hcommand
      haoid)) fun _ y hy _ _ => Accounts.pure hy trivial
  · exact accounts_quiet (Coro.Frames.mono (keeps_dispatch name gs) fun _ _ h =>
      h.mono fun _ => quiet_of_commandWrites hname) hv

/-! Tasks -/

section Tasks
variable {app : App} {request : Request}

def Subscribes : Request → Prop
  | .subscribe _ _ => True
  | _ => False

theorem quiet_of_requestWrites (hquiet : ¬ Subscribes request) {op : Write}
    (h : RequestWrites request op) : Quiet op := by
  rintro player aoid rfl
  cases request with
  | subscribe => exact hquiet trivial
  | register | unsubscribe => rcases h with h | h <;> cases h
  | updateSetting | startWatching | stopTracking | updateFilter | clearFilter => cases h
  | bulkUnsubscribe => rcases h with h | ⟨_, _, h⟩ <;> cases h
  | unsubscribeAll => rcases h.2 with h | h <;> cases h
  | unregister | untrackAll => cases h.2
  | triggerAutotrack => rcases h with h | h | ⟨_, h⟩ | h <;> cases h
  | triggerPoll =>
    rcases h with ⟨_, h⟩ | h | ⟨_, _, h⟩
    · cases h
    · cases h
    · rcases h with (h | h | h | ⟨_, h | h⟩ | h) | h <;> cases h
  | _ => exact h.elim

/-- Only a task that subscribes inserts a row, and it does so as it was asked to. -/
theorem accounts_program {t : Recorded ι World} (i : ι) (ht : Consented app.env tasks start t) :
    Accounts (Consented app.env tasks start) i (program app (tasks i)) t fun _ _ => True := by
  have hother : ∀ {task : Task}, (∀ op, TaskWrites task op → Quiet op) →
      Accounts (Consented app.env tasks start) i (program app task) t fun _ _ => True :=
    fun h => accounts_quiet (Coro.Frames.mono (keeps_program _) fun _ _ hs => hs.mono h) ht
  cases htask : tasks i with
  | startup => exact hother fun op hop => by rintro _ _ rfl; cases hop
  | activity a =>
    cases a with
    | poll => exact hother fun op hop => @quiet_of_requestWrites .triggerPoll id op hop
    | sync => exact hother fun op hop => @quiet_of_requestWrites .triggerAutotrack id op hop
    | online player => exact hother fun op hop => by rintro _ _ rfl; cases hop
    | tell nameForId tell => exact accounts_handleTell ht htask
    | request xApiKey request =>
      by_cases hsubscribes : Subscribes request
      · cases request with
        | subscribe player aoid =>
          refine accounts_discarded (accounts_serve
            (K := fun u => Authorised app.env (u.Turn i) xApiKey (.player player)) ht
            (accounts_guard quiet_of_ticks ht (by simp [guardOf])) fun u hu hallowed => ?_) ht
          exact Accounts.bind hu (accounts_subscribe hu (.request xApiKey htask hallowed))
            fun _ v hv _ _ => Accounts.pure hv trivial
        | _ => exact hsubscribes.elim
      · refine hother fun op hop => ?_
        rcases hop with rfl | hop
        · simp [Quiet]
        · exact quiet_of_requestWrites hsubscribes hop

variable [DecidableEq ι]

/-- However cycles, commands and requests interleave and fail, a subscription whose player and
item were not together at the start was wanted by the player, for an item that the service knew
and while the player was registered. -/
theorem subscriptions_requested (app : App) (tasks : ι → Task) (w : World) (schedule : List ι) :
    ∀ s ∈ (afterwards app tasks w schedule).db.subscriptions,
      (∃ r ∈ w.db.subscriptions, r.key = s.key) ∨
        ∃ i, Requested app.env (TurnOf app tasks w schedule i) (tasks i) s.player s.aoid := by
  have hstart := consented_start app.env tasks w
  obtain ⟨t, hnow, hturns, hconsented⟩ :=
    traced hstart (fun i => accounts_program i hstart) schedule
  rw [← hnow]
  refine fun s hs => (hconsented.requested s hs).imp_right fun h => ?_
  obtain ⟨i, hrequested⟩ := h
  exact ⟨i, hrequested.mono (hturns i)⟩

end Tasks

def ownerEnabled : World :=
  ((AdminCommands.handleAdminCommand CommandReplies.stockedApp.env "Tara"
    "!settings Enabled true").run SettingTypes.seededWorld).2

def ownerTasks : Bool → Task
  | true => .activity (.request (some "aomk_tara") (.subscribe "Tara" 7))
  | false => .activity (.tell (fun _ => some "Tara") ⟨7, "market watch 9"⟩)

def ownerTurns : List Bool := (List.replicate 16 [true, false]).flatten

theorem tara_requested :
    (∃ r ∈ ownerEnabled.db.subscriptions, r.key = ("Tara", 9)) ∨ ∃ i,
      Requested CommandReplies.stockedApp.env
        (TurnOf CommandReplies.stockedApp ownerTasks ownerEnabled ownerTurns i) (ownerTasks i)
        "Tara" 9 :=
  subscriptions_requested CommandReplies.stockedApp ownerTasks ownerEnabled ownerTurns
    { player := "Tara", aoid := 9, createdAt := 0 } (by decide +kernel)

end AoMarket.SubscriptionOrigin
