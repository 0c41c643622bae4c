import AoMarket.HttpWrites
import AoMarket.PollProgress

/-!
What ends a watch. A resync touches no subscription. A poll cycle starts by
dropping the items that expired, and the foreign key takes their subscriptions
along; nothing else in it removes one. Of the tells and requests only the
commands and routes named in `Ends` do.
-/

namespace AoMarket.WatchExpiry

open Coroutine Relational Models Database Environment PyNumber SettingsRepo Polling Commands Runner
  Writes ServiceWrites ChatWrites HttpRoutes HttpAccess HttpWrites PollProgress
open MarketRepo hiding register clearFilter logAction updateFilter getWatch

variable {env : Env} {α β : Type}

/-- At the start of a poll cycle in `w` the item counts as expired. -/
def Expired (env : Env) (w : World) (aoid : ℤ) : Prop :=
  ∃ days, readSetting env w.db "WatchExpireDays" = .ok (.int days) ∧
    ∃ r ∈ w.db.watch, r.aoid = aoid ∧ r.autoTracked = false ∧
      lastActivity r < env.clock w.tick - days * usPerDay

theorem subscriptions_run_eq {p : M α} (h : Keeps (fun op => ¬ TouchesSubscriptions op) p)
    (w : World) : (p.run w).2.db.subscriptions = w.db.subscriptions :=
  h.run_eq (f := fun db => db.subscriptions)
    (fun _ _ _ _ hop heffect => heffect.subscriptions_eq hop) w

/-! Where a subscription is lost -/

section Lost
variable {s : MarketSubscription} {w : World}

/-- Not in a step that only reads. -/
theorem lost_after_read {p : M α} {f : α → M β} (hp : Keeps (fun _ => False) p)
    (hmem : s ∈ w.db.subscriptions) (hlost : s ∉ ((p >>= f).run w).2.db.subscriptions) :
    ∃ a w', p.run w = (.ok a, w') ∧ w'.db = w.db ∧
      s ∉ ((f a).run w').2.db.subscriptions := by
  rcases hrun : p.run w with ⟨e | a, w'⟩
  · rw [Coro.run_bind_error hrun] at hlost
    have hdb := Keeps.db_of_run hp hrun
    exact absurd (hdb ▸ hmem) hlost
  · rw [Coro.run_bind_ok hrun] at hlost
    exact ⟨a, w', rfl, Keeps.db_of_run hp hrun, hlost⟩

/-- Not in a rest that leaves subscriptions alone. -/
theorem lost_before_rest {p : M α} {f : α → M β}
    (hf : ∀ a, Keeps (fun op => ¬ TouchesSubscriptions op) (f a))
    (hlost : s ∉ ((p >>= f).run w).2.db.subscriptions) :
    s ∉ (p.run w).2.db.subscriptions := by
  rw [Coro.run_bind] at hlost
  split at hlost
  · next a w' hrun =>
    rw [subscriptions_run_eq (hf a)] at hlost
    rwa [hrun]
  · next e w' hrun => rwa [hrun]

/-- A subscription that expire_stale_watch takes was one to a stale item. -/
theorem lost_by_expireStaleWatch {cutoff : ℤ} (hmem : s ∈ w.db.subscriptions)
    (hlost : s ∉ ((expireStaleWatch env cutoff).run w).2.db.subscriptions) :
    ∃ r ∈ w.db.watch, r.aoid = s.aoid ∧ r.autoTracked = false ∧ lastActivity r < cutoff := by
  obtain ⟨aoids, w', hselect, hdb, hlost⟩ :=
    lost_after_read (keeps_query Silent.nil) hmem hlost
  have haoids := (run_query_eq_ok hselect).1
  by_cases hsome : aoids = []
  · simp only [hsome, ne_eq, not_true_eq_false, if_false] at hlost
    exact absurd (hdb ▸ hmem) hlost
  · simp only [ne_eq, hsome, not_false_eq_true, if_true] at hlost
    have hdelete := lost_before_rest (fun _ => Coro.Frames.pure aoids) hlost
    have hrow : s.aoid ∈ aoids := by
      by_contra hkept
      apply hdelete
      rcases run_statement_cases w' with ⟨e, hrun⟩ | ⟨_, u, db, note, hf, hrun⟩
      · rw [hrun]
        exact hdb ▸ hmem
      · rw [hrun]
        cases hf
        refine mem_cascade.mpr ⟨hdb ▸ hmem, fun r _ hr heq => hkept ?_⟩
        rw [← heq]
        simpa using hr
    rw [← Except.ok.inj haoids] at hrow
    obtain ⟨r, hr, haoid⟩ := List.mem_map.mp hrow
    obtain ⟨hmem', hstale⟩ := List.mem_filter.mp hr
    simp only [Bool.and_eq_true, Bool.not_eq_true', decide_eq_true_eq] at hstale
    exact ⟨r, hmem', haoid, hstale.1, hstale.2⟩

/-- The selection of a cycle takes a subscription only with an expired item. -/
theorem lost_by_selectDue (hmem : s ∈ w.db.subscriptions)
    (hlost : s ∉ ((selectDue env).run w).2.db.subscriptions) : Expired env w s.aoid := by
  unfold selectDue at hlost
  obtain ⟨now, w₁, hclock, hdb₁, hlost⟩ :=
    lost_after_read (keeps_external fun _ => Silent.nil) hmem hlost
  rw [← hdb₁] at hmem
  obtain ⟨retention, w₂, _, hdb₂, hlost⟩ := lost_after_read (keeps_getInt _) hmem hlost
  rw [← hdb₂] at hmem
  obtain ⟨days, w₃, hdays, hdb₃, hlost⟩ := lost_after_read (keeps_getInt _) hmem hlost
  rw [← hdb₃] at hmem
  obtain ⟨interval, w₄, _, hdb₄, hlost⟩ := lost_after_read (keeps_getInt _) hmem hlost
  rw [← hdb₄] at hmem
  obtain ⟨batchSize, w₅, _, hdb₅, hlost⟩ := lost_after_read (keeps_getInt _) hmem hlost
  rw [← hdb₅] at hmem
  obtain ⟨stale, w₆, hstale, hdb₆, hlost⟩ :=
    lost_after_read (Coro.Frames.ofExcept _) hmem hlost
  rw [← hdb₆] at hmem
  have hexpire := lost_before_rest (fun expired => by
    refine Coro.Frames.bind (Coro.Frames.ofExcept _) fun _ => ?_
    refine Coro.Frames.bind (keeps_pruneHistory (by simp [TouchesSubscriptions]) _) fun _ => ?_
    refine Coro.Frames.bind (Coro.Frames.ofExcept _) fun _ => ?_
    exact Coro.Frames.bind (keeps_query Silent.nil) fun _ => Coro.Frames.pure _) hlost
  obtain ⟨r, hr, haoid, hauto, hold⟩ := lost_by_expireStaleWatch hmem hexpire
  have hnow : now = env.clock w.tick := by
    have hrun : (external (α := ℤ) .clock fun tick => .ok (env.clock tick)).run w =
        (.ok (env.clock w.tick), { w.next with log := w.log ++ [] }) := by simp [external]
    rw [hrun] at hclock
    exact (Except.ok.inj (Prod.mk.inj hclock).1).symm
  have hread := (getInt_ok hdays).1
  rw [hdb₂, hdb₁] at hread
  have hcutoff : stale = now - days * usPerDay := by
    rw [Coro.run_ofExcept] at hstale
    exact cutoff_eq_ok (Prod.mk.inj hstale).1
  rw [hdb₆, hdb₅, hdb₄, hdb₃, hdb₂, hdb₁] at hr
  rw [hcutoff, hnow] at hold
  exact ⟨days, hread, r, hr, haoid, hauto, hold⟩

theorem lost_by_pollMarket (hmem : s ∈ w.db.subscriptions)
    (hlost : s ∉ ((pollMarket env).run w).2.db.subscriptions) : Expired env w s.aoid := by
  have hselect := lost_before_rest (fun due => by
    have hloop : Keeps (fun op => ¬ TouchesSubscriptions op) (pollItems env due.now (some due.began) due.items) := by
      apply keeps_pollItems
      rintro watch _ op ((rfl | rfl | rfl | ⟨player, rfl | rfl⟩ | rfl) | rfl) <;>
        simp [TouchesSubscriptions]
    refine Coro.Frames.bind hloop fun updated => ?_
    exact Coro.Frames.bind (keeps_announceCycle due updated) fun _ => Coro.Frames.pure _) hlost
  exact lost_by_selectDue hmem hselect

end Lost

/-! Watches and what ends them -/

def Watching (db : Db) (player : String) (aoid : ℤ) : Prop :=
  (player, aoid) ∈ db.subscriptions.map MarketSubscription.key

/-- The writes that may end the watch. -/
def EndsWatch (player : String) (aoid : ℤ) : Write → Prop
  | .eraseUser q | .deleteSubscriptions q => q = player
  | .deleteSubscription q a => q = player ∧ a = aoid
  | .deleteWatch a => a = aoid
  | .clearWatch => True
  | .deleteStale aoids => aoid ∈ aoids
  | _ => False

section Kept
variable {player : String} {aoid : ℤ}

theorem watching_of_subset {db db' : Db} (h : ∀ s ∈ db.subscriptions,
    s.key = (player, aoid) → s ∈ db'.subscriptions) (hw : Watching db player aoid) :
    Watching db' player aoid := by
  obtain ⟨s, hs, hkey⟩ := List.mem_map.mp hw
  exact List.mem_map.mpr ⟨s, h s hs hkey, hkey⟩

theorem watching_deleteWatch {db : Db} {p : MarketWatch → Bool}
    (hp : ∀ r ∈ db.watch, r.aoid = aoid → p r = false) (hw : Watching db player aoid) :
    Watching (db.deleteWatch p) player aoid := by
  refine watching_of_subset (fun s hs hkey => mem_cascade.mpr ⟨hs, fun r hr hpr hra => ?_⟩) hw
  have haoid : r.aoid = aoid := hra.trans (congrArg Prod.snd hkey)
  have hspared := hp r hr haoid
  rw [hspared] at hpr
  cases hpr

theorem watching_of_effect {op : Write} {db db' : Db} {note : List Event}
    (h : Effect op db db' note) (hop : ¬ EndsWatch player aoid op)
    (hw : Watching db player aoid) : Watching db' player aoid := by
  by_cases htouches : TouchesSubscriptions op
  · cases h with
    | eraseUser _ q =>
      refine watching_of_subset (fun s hs hkey => ?_) hw
      have hplayer : s.player ≠ q := fun heq => hop (heq.symm.trans (congrArg Prod.fst hkey))
      refine mem_cascade.mpr ⟨mem_deleteRows.mpr ⟨hs, by simpa using hplayer⟩, ?_⟩
      intro u _ hu heq
      have huser : u.player = q := by simpa using hu
      exact hplayer (heq.symm.trans huser)
    | deleteWatch _ a =>
      apply watching_deleteWatch _ hw
      intro r _ hra
      have hne : r.aoid ≠ a := fun heq => hop (heq.symm.trans hra)
      simpa using hne
    | clearWatch => exact absurd trivial hop
    | deleteStale _ aoids =>
      apply watching_deleteWatch _ hw
      intro r _ hra
      have hne : r.aoid ∉ aoids := fun hmem => hop (hra ▸ hmem)
      simpa using hne
    | insertSubscription row h =>
      unfold Watching
      rw [Db.insertSubscription_eq_some h]
      exact List.mem_map.mpr (by
        obtain ⟨s, hs, hkey⟩ := List.mem_map.mp hw
        exact ⟨s, List.mem_append_left _ hs, hkey⟩)
    | deleteSubscription _ q a =>
      refine watching_of_subset (fun s hs hkey => mem_deleteRows.mpr ⟨hs, ?_⟩) hw
      have hne : s.key ≠ (q, a) := by
        intro heq
        rw [hkey] at heq
        exact hop ⟨(congrArg Prod.fst heq).symm, (congrArg Prod.snd heq).symm⟩
      simpa using hne
    | deleteSubscriptions _ q =>
      refine watching_of_subset (fun s hs hkey => mem_deleteRows.mpr ⟨hs, ?_⟩) hw
      have hne : s.player ≠ q := fun heq => hop (heq.symm.trans (congrArg Prod.fst hkey))
      simpa using hne
    | updateFilter _ q a f hf =>
      unfold Watching
      rw [show (db.updateSubscriptions (fun s => s.key == (q, a)) f hf).subscriptions.map
        MarketSubscription.key = db.subscriptions.map MarketSubscription.key from map_updateRows _ hf]
      exact hw
    | _ => exact absurd htouches (by simp [TouchesSubscriptions])
  · unfold Watching
    rw [h.subscriptions_eq htouches]
    exact hw

/-- A watch that a run ended was ended by one of its writes. -/
theorem ended_by_write {A : Write → Prop} {p : M α} (h : Keeps A p) {w : World}
    (hw : Watching w.db player aoid) (hended : ¬ Watching (p.run w).2.db player aoid) :
    ∃ op, A op ∧ EndsWatch player aoid op := by
  by_contra hnone
  have hkept := h.run_rel (R := fun db db' => Watching db player aoid → Watching db' player aoid)
    (fun _ => id) (fun hab hbc ha => hbc (hab ha))
    (fun op _ _ _ hop heffect =>
      watching_of_effect heffect fun hends => hnone ⟨op, hop, hends⟩) w
  exact hended (hkept hw)

end Kept

/-! Activities -/

/-- What happens to a running bot and its API. -/
inductive Activity where
  | poll
  | sync
  | online (player : String)
  | tell (nameForId : ℕ → Option String) (tell : InboundTell)
  | request (xApiKey : Option String) (request : Request)

def perform (app : App) (w : World) : Activity → World
  | .poll => ((pollMarket app.env).run w).2
  | .sync => ((AutoTrack.syncTopTradedItems app.env).run w).2
  | .online player => ((deliverPendingAlerts app.env player).run w).2
  | .tell nameForId tell => ((handleTell app.env nameForId tell).run w).2
  | .request xApiKey request => ((serve app xApiKey request).run w).2

def performAll (app : App) (activities : List Activity) (start : World) : World :=
  activities.foldl (perform app) start

/-- The commands that end watches of their sender. -/
def Unwatches (gs : Regex.Groups) : Command → Prop
  | .unregister | .unwatchAll => confirmed gs = true
  | .unwatchBulk | .unwatch => True
  | _ => False

/-- A route that ends the watch; `w` is the world in which its handler starts. -/
def RouteEnds (env : Env) (w : World) (player : String) (aoid : ℤ) : Request → Prop
  | .unregister q confirm | .unsubscribeAll q confirm => q = player ∧ confirm = true
  | .unsubscribe q a => q = player ∧ a = aoid
  | .bulkUnsubscribe q aoids => q = player ∧ aoid ∈ aoids
  | .stopTracking a => a = aoid
  | .untrackAll confirm => confirm = true
  | .triggerPoll => Expired env w aoid
  | _ => False

/-- An activity that ends the watch: the player's own command or route, an admin's untrack,
or a poll cycle at whose start the item has expired. -/
def Ends (app : App) (w : World) (player : String) (aoid : ℤ) : Activity → Prop
  | .poll => Expired app.env w aoid
  | .sync | .online _ => False
  | .tell nameForId tell => ∃ name gs, selectCommand tell.message = some (name, gs) ∧
      (playerName nameForId tell.senderId = player ∧ Unwatches gs name ∨
        name = .untrackAll ∧ confirmed gs = true ∧
          IsAdmin app.env w.db (playerName nameForId tell.senderId))
  | .request xApiKey request =>
      Authorized app.env w xApiKey (guardOf request) ∧
        RouteEnds app.env ((checkGuard app.env xApiKey (guardOf request)).run w).2
          player aoid request

/-- A confirmed 'untrack all' that comes by tell comes from an admin. -/
def ByAdmin (app : App) (w : World) : Activity → Prop
  | .tell nameForId tell => ∀ gs, selectCommand tell.message = some (.untrackAll, gs) →
      confirmed gs = true → IsAdmin app.env w.db (playerName nameForId tell.senderId)
  | _ => True

/-- Every 'untrack all' of the run comes from an admin. -/
def UntrackedByAdmins (app : App) : World → List Activity → Prop
  | _, [] => True
  | w, activity :: rest =>
    ByAdmin app w activity ∧ UntrackedByAdmins app (perform app w activity) rest

section Attribution
variable {app : App} {w : World} {player : String} {aoid : ℤ}

theorem ended_by_poll (hw : Watching w.db player aoid)
    (hended : ¬ Watching ((pollMarket env).run w).2.db player aoid) : Expired env w aoid := by
  obtain ⟨s, hs, hkey⟩ := List.mem_map.mp hw
  have hlost : s ∉ ((pollMarket env).run w).2.db.subscriptions :=
    fun hs' => hended (List.mem_map.mpr ⟨s, hs', hkey⟩)
  have haoid : s.aoid = aoid := congrArg Prod.snd hkey
  rw [← haoid]
  exact lost_by_pollMarket hs hlost

/-- A tell ends a watch by its sender's own command or by an admin's untrack. -/
theorem ended_by_tell {nameForId : ℕ → Option String} {tell : InboundTell}
    (hadmin : ByAdmin app w (.tell nameForId tell)) (hw : Watching w.db player aoid)
    (hended : ¬ Watching ((handleTell app.env nameForId tell).run w).2.db player aoid) :
    Ends app w player aoid (.tell nameForId tell) := by
  obtain ⟨op, hop, hends⟩ := ended_by_write (keeps_handleTell nameForId tell) hw hended
  rcases hop with rfl | ⟨name, gs, hselect, hwrites⟩
  · exact hends.elim
  refine ⟨name, gs, hselect, ?_⟩
  cases name with
  | unregister =>
    obtain ⟨hconfirmed, rfl⟩ := hwrites
    exact Or.inl ⟨hends, hconfirmed⟩
  | untrackAll => exact Or.inr ⟨rfl, hwrites.1, hadmin gs hselect hwrites.1⟩
  | unwatchAll =>
    obtain ⟨hconfirmed, rfl | rfl⟩ := hwrites
    · exact Or.inl ⟨hends, hconfirmed⟩
    · exact hends.elim
  | unwatchBulk | unwatch =>
    rcases hwrites with rfl | ⟨a, rfl⟩
    · exact hends.elim
    · exact Or.inl ⟨hends.1, trivial⟩
  | register => rcases hwrites with rfl | rfl <;> exact hends.elim
  | apikeyGenerate => rcases hwrites with rfl | rfl | rfl <;> exact hends.elim
  | apikeyRevoke =>
    obtain ⟨_, rfl⟩ := hwrites
    exact hends.elim
  | filterPrice | filterQl | filterClear | overview =>
    obtain ⟨a, rfl⟩ := hwrites
    exact hends.elim
  | watchAoid => rcases hwrites with rfl | ⟨a, rfl | rfl⟩ <;> exact hends.elim
  | _ => exact hwrites.elim

/-- Behind its guard a route ends a watch only as `RouteEnds` says. -/
theorem ended_by_handler {request : Request} (hw : Watching w.db player aoid)
    (hended : ¬ Watching ((handler app request).run w).2.db player aoid) :
    guardOf request ≠ .anyone ∧ RouteEnds app.env w player aoid request := by
  by_cases hpoll : request = .triggerPoll
  · subst hpoll
    refine ⟨by simp [guardOf], ?_⟩
    simp only [handler, onBot] at hended
    cases hconnected : app.connected with
    | false =>
      simp only [hconnected, Bool.not_false, if_true] at hended
      exact absurd hw hended
    | true =>
      simp only [hconnected, Bool.not_true, Bool.false_eq_true, if_false] at hended
      rw [run_bind_db fun _ => Coro.Frames.pure _] at hended
      exact ended_by_poll hw hended
  obtain ⟨op, hop, hends⟩ := ended_by_write (keeps_handler app request) hw hended
  cases request with
  | triggerPoll => exact absurd rfl hpoll
  | unregister q confirm =>
    obtain ⟨hconfirm, rfl⟩ := hop
    exact ⟨by simp [guardOf], hends, hconfirm⟩
  | unsubscribe q a =>
    rcases hop with rfl | rfl
    · exact ⟨by simp [guardOf], hends⟩
    · exact hends.elim
  | bulkUnsubscribe q aoids =>
    rcases hop with rfl | ⟨a, ha, rfl⟩
    · exact hends.elim
    · exact ⟨by simp [guardOf], hends.1, hends.2 ▸ ha⟩
  | unsubscribeAll q confirm =>
    obtain ⟨hconfirm, rfl | rfl⟩ := hop
    · exact ⟨by simp [guardOf], hends, hconfirm⟩
    · exact hends.elim
  | stopTracking a =>
    cases hop
    exact ⟨by simp [guardOf], hends⟩
  | untrackAll confirm => exact ⟨by simp [guardOf], hop.1⟩
  | register q => rcases hop with rfl | rfl <;> exact hends.elim
  | subscribe q a => rcases hop with rfl | rfl | rfl <;> exact hends.elim
  | triggerAutotrack => rcases hop with rfl | rfl | ⟨a, rfl⟩ | rfl <;> exact hends.elim
  | updateSetting | startWatching | updateFilter | clearFilter =>
    cases hop
    exact hends.elim
  | _ => exact hop.elim

/-- A request ends a watch under a key that may: the player's own or an admin's. -/
theorem ended_by_request {xApiKey : Option String} {request : Request}
    (hw : Watching w.db player aoid)
    (hended : ¬ Watching ((serve app xApiKey request).run w).2.db player aoid) :
    Ends app w player aoid (.request xApiKey request) := by
  unfold serve at hended
  rw [run_handle_db keeps_marketErrorHandler] at hended
  have hkept : Watching ((checkGuard app.env xApiKey (guardOf request)).run w).2.db player aoid := by
    by_contra hnot
    obtain ⟨op, rfl, hends⟩ :=
      ended_by_write (keeps_checkGuard (A := fun op => op = .touchKey) rfl _ _) hw hnot
    exact hends.elim
  rcases hguard : (checkGuard app.env xApiKey (guardOf request)).run w with ⟨e | stopped, w₁⟩
  · rw [hguard] at hkept
    rw [Coro.run_bind_error hguard] at hended
    exact absurd hkept hended
  rw [hguard] at hkept
  rw [Coro.run_bind_ok hguard] at hended
  cases stopped with
  | some response => exact absurd hkept hended
  | none =>
    obtain ⟨hclosed, hroute⟩ := ended_by_handler hkept hended
    refine ⟨authorized_of_pass hclosed (by rw [hguard]), ?_⟩
    rwa [hguard]

/-- An activity that ends the watch is one of those that may. -/
theorem ended_by_activity {activity : Activity} (hadmin : ByAdmin app w activity)
    (hw : Watching w.db player aoid)
    (hended : ¬ Watching (perform app w activity).db player aoid) :
    Ends app w player aoid activity := by
  cases activity with
  | poll => exact ended_by_poll hw hended
  | sync =>
    obtain ⟨op, hop, hends⟩ := ended_by_write keeps_sync hw hended
    rcases hop with rfl | rfl | ⟨a, rfl⟩ | rfl <;> exact hends.elim
  | online q =>
    obtain ⟨op, rfl, hends⟩ :=
      ended_by_write (A := fun op => op = .deleteAlerts q) (keeps_deliverPendingAlerts rfl) hw hended
    exact hends.elim
  | tell nameForId tell => exact ended_by_tell hadmin hw hended
  | request xApiKey request => exact ended_by_request hw hended

/-- A watch that is gone after any activities was ended by one of them: by the player,
by an admin's untrack, or by the expiry at the start of a poll cycle. A resync ends none. -/
theorem watch_ended_by {app : App} {start : World} {activities : List Activity} {player : String}
    {aoid : ℤ} (hadmins : UntrackedByAdmins app start activities)
    (hw : Watching start.db player aoid)
    (hended : ¬ Watching (performAll app activities start).db player aoid) :
    ∃ before activity after, activities = before ++ activity :: after ∧
      Ends app (performAll app before start) player aoid activity := by
  induction activities generalizing start with
  | nil => exact absurd hw hended
  | cons activity rest ih =>
    by_cases hkept : Watching (perform app start activity).db player aoid
    · obtain ⟨before, ending, after, rfl, hends⟩ := ih hadmins.2 hkept hended
      exact ⟨activity :: before, ending, after, rfl, hends⟩
    · exact ⟨[], activity, rest, rfl, ended_by_activity hadmins.1 hw hkept⟩

end Attribution

/-- Forty days pass with every call, and any item is known. -/
def agingApp : App where
  env := { Env.calm with
    clock := fun tick => tick * 40 * usPerDay
    getItem := fun _ aoid => .ok (some ⟨aoid, "Ring", 10, none⟩)
    ownerCharacter := "Tara" }
  searchPage _ _ _ _ _ := .ok ([], 0)
  bot := none

def fromTara (message : String) : Activity := .tell (fun _ => some "Tara") ⟨7, message⟩

/-- The owner enables the module, registers and watches item 1. -/
def taraWatches : World :=
  performAll agingApp
    [fromTara "!settings Enabled on", fromTara "market register", fromTara "market watch 1"]
    ((seedDefaults agingApp.env).run { db := .empty }).2

theorem taraWatches_key :
    taraWatches.db.subscriptions.map MarketSubscription.key = [("Tara", 1)] := by decide +kernel

theorem subscriptions_after_cycles :
    (performAll agingApp [.sync, .poll] taraWatches).db.subscriptions = [] := by decide +kernel

/-- The next cycles take the watch away, and nobody unwatched or untracked anything. -/
theorem cycles_cancel_watch : Watching taraWatches.db "Tara" 1 ∧
    ¬ Watching (performAll agingApp [.sync, .poll] taraWatches).db "Tara" 1 := by
  refine ⟨?_, ?_⟩
  · unfold Watching
    rw [taraWatches_key]
    exact List.mem_singleton_self _
  · unfold Watching
    rw [subscriptions_after_cycles]
    exact List.not_mem_nil

def taraUntracks : List Activity := [.sync, fromTara "market untrack all confirm", .poll]

theorem subscriptions_after_untrack :
    (performAll agingApp taraUntracks taraWatches).db.subscriptions = [] := by decide +kernel

/-- The owner's own untrack is one of an admin's. -/
theorem tara_watch_ended_by : ∃ before activity after,
    taraUntracks = before ++ activity :: after ∧
      Ends agingApp (performAll agingApp before taraWatches) "Tara" 1 activity := by
  apply watch_ended_by
  · exact ⟨trivial, fun _ _ _ => Or.inl ⟨by decide, rfl⟩, trivial, trivial⟩
  · unfold Watching
    rw [taraWatches_key]
    exact List.mem_singleton_self _
  · unfold Watching
    rw [subscriptions_after_untrack]
    exact List.not_mem_nil

end AoMarket.WatchExpiry
