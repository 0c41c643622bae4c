import AoMarket.CommandReplies
import AoMarket.Unregistration
import AoMarket.UnwatchMessages

/-!
A message that unwatches a list of numbers. The numbers are read off the text twice,
by the pattern and by the split of what it captured; the loop then commits one delete
and one action a number. What is left is the watchlist without the set of the numbers,
as it is after single unwatch commands in any order.
-/

namespace AoMarket.BulkUnwatch

open Coroutine Outcomes Relational Models Database PyText PyNumber Environment SettingsRepo
open MarketService Commands CommandWords UnwatchMessages BookNumbers SettingTypes SettingRepair
open MarketRepo hiding logAction register clearFilter
open HttpRoutes (App)
open CommandReplies (stockedApp enabledWorld enabledWorld_run)

/-- Nothing outside the bot is in the way of an unwatch command: the server is up and takes
the player's name, items can be looked up and the private channel takes announcements. -/
structure Undisturbed (env : Env) (player : String) : Prop where
  up : ∀ t, env.dbFault t = none
  name : env.storable player = true
  lookups : ∀ t aoid, (env.getItem t aoid).isOk = true
  privgroup : ∀ send ∈ env.chat.sendPrivgroup, ∀ t message, (send t message).isOk = true

/-- The module is enabled, and the announcements are on or off. -/
structure Ready (env : Env) (db : Db) : Prop where
  enabled : readSetting env db "Enabled" = .ok (.bool true)
  logs : ∃ b, readSetting env db "LogToPrivateChannel" = .ok (.bool b)

def watchlist (db : Db) (player : String) : Finset ℤ :=
  ((subscriptionsOf db player).map MarketSubscription.aoid).toFinset

def without (player : String) (aoids : List ℤ) (rows : List MarketSubscription) :
    List MarketSubscription :=
  rows.filter fun s => decide ¬ (s.player = player ∧ s.aoid ∈ aoids)

/-- One 'unwatch' action for each number, and the rows of the numbers are gone. -/
structure Unwatched (player : String) (aoids : List ℤ) (db db' : Db) : Prop where
  subscriptions : db'.subscriptions = without player aoids db.subscriptions
  actions : ∃ rows, db'.userActions = db.userActions ++ rows ∧
    rows.map (fun r => (r.player, r.action, r.aoid)) =
      aoids.map fun aoid => (player, "unwatch", some aoid)
  tables : db'.toTables =
    { db.toTables with subscriptions := db'.subscriptions, userActions := db'.userActions }

section Rows
variable {player : String} {aoid : ℤ} {aoids : List ℤ} {db db' : Db}

theorem mem_watchlist : aoid ∈ watchlist db player ↔
    (player, aoid) ∈ db.subscriptions.map MarketSubscription.key := by
  simp only [watchlist, subscriptionsOf, List.mem_toFinset, List.mem_map, List.mem_filter, beq_iff_eq]
  constructor
  · intro h
    obtain ⟨s, ⟨hs, hplayer⟩, haoid⟩ := h
    exact ⟨s, hs, Prod.ext hplayer haoid⟩
  · intro h
    obtain ⟨s, hs, hkey⟩ := h
    exact ⟨s, ⟨hs, congrArg Prod.fst hkey⟩, congrArg Prod.snd hkey⟩

theorem any_key : (db.subscriptions.any fun s => s.key == (player, aoid)) = true ↔
    aoid ∈ watchlist db player := by
  rw [mem_watchlist, List.any_eq_true, List.mem_map]
  simp only [beq_iff_eq]

theorem without_nil (rows : List MarketSubscription) : without player [] rows = rows := by
  unfold without
  simp

theorem without_append (aoids' : List ℤ) (rows : List MarketSubscription) :
    without player (aoids ++ aoids') rows = without player aoids' (without player aoids rows) := by
  unfold without
  rw [List.filter_filter]
  apply List.filter_congr
  intro s _
  rw [Bool.eq_iff_iff]
  simp only [decide_eq_true_eq, Bool.and_eq_true, List.mem_append]
  tauto

theorem without_one (rows : List MarketSubscription) :
    without player [aoid] rows = deleteRows (fun s => s.key == (player, aoid)) rows := by
  unfold without deleteRows
  apply List.filter_congr
  intro s _
  have hkey : s.key = (player, aoid) ↔ s.player = player ∧ s.aoid = aoid := Prod.mk.injEq .. ▸ Iff.rfl
  rw [Bool.eq_iff_iff]
  simp only [decide_eq_true_eq, Bool.not_eq_true', beq_eq_false_iff_ne, ne_eq, hkey,
    List.mem_singleton]

theorem Unwatched.watchlist_eq (h : Unwatched player aoids db db') :
    watchlist db' player = watchlist db player \ aoids.toFinset := by
  ext a
  rw [Finset.mem_sdiff, mem_watchlist, mem_watchlist, List.mem_toFinset, h.subscriptions]
  simp only [without, List.mem_map, List.mem_filter, decide_eq_true_eq]
  constructor
  · intro hmem
    obtain ⟨s, ⟨hs, hkept⟩, hkey⟩ := hmem
    have hplayer : s.player = player := congrArg Prod.fst hkey
    have haoid : s.aoid = a := congrArg Prod.snd hkey
    refine ⟨⟨s, hs, hkey⟩, fun ha => hkept ⟨hplayer, ?_⟩⟩
    rwa [haoid]
  · intro hmem
    obtain ⟨⟨s, hs, hkey⟩, ha⟩ := hmem
    have haoid : s.aoid = a := congrArg Prod.snd hkey
    refine ⟨s, ⟨hs, fun hgone => ha ?_⟩, hkey⟩
    rw [← haoid]
    exact hgone.2

theorem Unwatched.settings (h : Unwatched player aoids db db') : db'.settings = db.settings := by
  rw [h.tables]

theorem unwatched_nil (db : Db) : Unwatched player [] db db where
  subscriptions := (without_nil db.subscriptions).symm
  actions := ⟨[], (List.append_nil _).symm, rfl⟩
  tables := rfl

/-- One delete and one action. -/
theorem unwatched_one {row : MarketUserAction}
    (hrow : row.player = player ∧ row.action = "unwatch" ∧ row.aoid = some aoid)
    (hdb : db' = (db.deleteSubscriptions fun s => s.key == (player, aoid)).insertAction row) :
    Unwatched player [aoid] db db' where
  subscriptions := by
    rw [without_one, hdb]
    rfl
  actions := by
    refine ⟨[row], by rw [hdb]; rfl, ?_⟩
    rw [List.map_singleton, List.map_singleton, hrow.1, hrow.2.1, hrow.2.2]
  tables := by
    rw [hdb]
    rfl

theorem Unwatched.trans {aoids' : List ℤ} {mid : Db} (h : Unwatched player aoids db mid)
    (h' : Unwatched player aoids' mid db') : Unwatched player (aoids ++ aoids') db db' where
  subscriptions := by rw [h'.subscriptions, h.subscriptions, without_append]
  actions := by
    obtain ⟨rows, hrows, hfields⟩ := h.actions
    obtain ⟨rows', hrows', hfields'⟩ := h'.actions
    refine ⟨rows ++ rows', ?_, ?_⟩
    · rw [hrows', hrows, List.append_assoc]
    · rw [List.map_append, List.map_append, hfields, hfields']
  tables := by rw [h'.tables, h.tables]

theorem Ready.of_settings {env : Env} (h : Ready env db) (hsame : db'.settings = db.settings) :
    Ready env db' := by
  have hread : ∀ key, readSetting env db' key = readSetting env db key := by
    intro key
    unfold readSetting
    rw [hsame]
  constructor
  · rw [hread]
    exact h.enabled
  · rw [hread]
    exact h.logs

end Rows

/-! The loop -/

section Runs
variable {env : Env} {player : String} {aoid : ℤ} {aoids : List ℤ} {w : World}

/-- One unsubscribe says whether the item was watched, and takes it off the list. -/
theorem returns_unsubscribe (free : Undisturbed env player) (ready : Ready env w.db)
    (haoid : Fits aoid) :
    Returns (unsubscribe env player aoid) w fun deleted w' =>
      (deleted = true ↔ aoid ∈ watchlist w.db player) ∧ Unwatched player [aoid] w.db w'.db := by
  obtain ⟨b, hread⟩ := ready.logs
  have hone := ServiceCalls.returns_unsubscribe_of free.up free.name hread
    (fun t => free.lookups t aoid) free.privgroup haoid
  refine hone.mono (fun deleted w' hw' => ?_) fun _ _ h => h
  obtain ⟨hdeleted, row, hrow, hdb⟩ := hw'
  exact ⟨by rw [hdeleted, any_key], unwatched_one hrow hdb⟩

/-- The loop sorts the numbers into those that were watched and those that were not. -/
theorem returns_unsubscribeEach (free : Undisturbed env player) (ready : Ready env w.db)
    (haoids : ∀ a ∈ aoids, Fits a) (hnodup : aoids.Nodup) :
    Returns (unsubscribeEach env player aoids) w fun r w' =>
      r = (aoids.filter (fun a => decide (a ∈ watchlist w.db player)),
        aoids.filter fun a => decide (a ∉ watchlist w.db player)) ∧
      Unwatched player aoids w.db w'.db := by
  induction aoids generalizing w with
  | nil => exact Yields.pure ⟨rfl, unwatched_nil w.db⟩
  | cons a rest ih =>
    obtain ⟨ha, hrest⟩ := List.forall_mem_cons.mp haoids
    obtain ⟨hnew, hnodup'⟩ := List.nodup_cons.mp hnodup
    refine (returns_unsubscribe free ready ha).bind fun deleted w₁ hw₁ => ?_
    obtain ⟨hdeleted, hone⟩ := hw₁
    -- the other numbers are watched as before
    have hsame : ∀ b ∈ rest, (b ∈ watchlist w₁.db player ↔ b ∈ watchlist w.db player) := by
      intro b hb
      have hne : b ≠ a := fun heq => hnew (heq ▸ hb)
      rw [hone.watchlist_eq]
      simp [hne]
    have hwatched : rest.filter (fun b => decide (b ∈ watchlist w₁.db player)) =
        rest.filter fun b => decide (b ∈ watchlist w.db player) :=
      List.filter_congr fun b hb => by rw [decide_eq_decide, hsame b hb]
    have hmissing : rest.filter (fun b => decide (b ∉ watchlist w₁.db player)) =
        rest.filter fun b => decide (b ∉ watchlist w.db player) :=
      List.filter_congr fun b hb => by rw [decide_eq_decide, hsame b hb]
    have hloop := ih (ready.of_settings hone.settings) hrest hnodup'
    rw [hwatched, hmissing] at hloop
    refine hloop.bind fun r w₂ hw₂ => ?_
    obtain ⟨rfl, hothers⟩ := hw₂
    have hall := hone.trans hothers
    by_cases hmem : a ∈ watchlist w.db player
    · rw [hdeleted.mpr hmem]
      refine Yields.pure ⟨?_, hall⟩
      rw [List.filter_cons_of_pos (by simpa using hmem), List.filter_cons_of_neg (by simpa using hmem)]
    · rw [Bool.eq_false_of_not_eq_true (mt hdeleted.mp hmem)]
      refine Yields.pure ⟨?_, hall⟩
      rw [List.filter_cons_of_neg (by simpa using hmem), List.filter_cons_of_pos (by simpa using hmem)]

/-- Numbers that `int()` takes are read as what they denote. -/
theorem parseAll_eq {texts : List String} (h : ∀ n ∈ texts, IsNumber n ∧ n.length ≤ maxStrDigits) :
    texts.mapM (parseAoid env) = pure (texts.map numberOf) := by
  induction texts with
  | nil => rfl
  | cons n rest ih =>
    obtain ⟨hn, hrest⟩ := List.forall_mem_cons.mp h
    have hparse : parseAoid env n = pure (numberOf n) := by
      unfold parseAoid
      rw [hn.1.parse env.py hn.2]
    rw [List.mapM_cons, hparse, pure_bind, ih hrest, pure_bind]
    rfl

end Runs

/-! The commands -/

def bulkReply (removed notWatched : List ℤ) : String :=
  let stopped := if removed = [] then []
    else [s!"Stopped watching {removed.length} item(s): {commaSeparated removed}."]
  let missing := if notWatched = [] then []
    else [s!"Not on your watchlist: {commaSeparated notWatched}."]
  Rendering.lines (stopped ++ missing)

theorem dispatch_bulk (env : Env) (player : String) (gs : Regex.Groups) :
    dispatch env player .unwatchBulk gs =
      ((splitNumbers (strip (textOf gs 1))).mapM (parseAoid env) >>= fun aoids =>
        unsubscribeBulk env player aoids >>= fun r => pure (bulkReply r.1 r.2)) := rfl

def numbers (texts : List String) : Finset ℤ := (texts.map numberOf).toFinset

structure BulkResult (player : String) (S : Finset ℤ) (db db' : Db) (removed notWatched : List ℤ) :
    Prop where
  removed_eq : removed.toFinset = S ∩ watchlist db player
  notWatched_eq : notWatched.toFinset = S \ watchlist db player
  once : removed.Nodup ∧ notWatched.Nodup
  watchlist_eq : watchlist db' player = watchlist db player \ S
  subscriptions_eq : db'.subscriptions =
    db.subscriptions.filter fun s => decide ¬ (s.player = player ∧ s.aoid ∈ S)
  actions_eq : ∃ rows, db'.userActions = db.userActions ++ rows ∧
    (rows.map fun r => (r.player, r.action, r.aoid)).Perm
      (S.toList.map fun aoid => (player, "unwatch", some aoid))

def runEach (env : Env) (player : String) (msgs : List String) (w : World) : World :=
  msgs.foldl (fun w msg => ((handleCommand env player msg).run w).2) w

section Commands
variable {env : Env} {player msg : String} {w : World} {texts : List String}

/-- What the column and `int()` take of a numeral. -/
def Readable (texts : List String) : Prop :=
  ∀ n ∈ texts, IsNumber n ∧ n.length ≤ maxStrDigits ∧ Fits (numberOf n)

/-- The enabled module hands a message to the command it selects. -/
theorem returns_selected (free : Undisturbed env player) (ready : Ready env w.db) {name : Command}
    {gs : Regex.Groups} (hselect : selectCommand msg = some (name, gs)) {Q : String → World → Prop}
    (h : Returns (dispatch env player name gs) w.next Q) :
    Returns (handleCommand env player msg) w Q := by
  have hreply : Returns (dispatchReply env player name gs) w.next Q :=
    Yields.handle h fun _ _ hno => hno.elim
  unfold handleCommand
  rw [Returns, Yields, Coro.run_bind_ok (run_getBool_ok (free.up _) ready.enabled), hselect]
  exact hreply

/-- The two lists of the loop are the two parts of the set. -/
theorem bulkResult_of_loop {aoids : List ℤ} {db db' : Db} (hnodup : aoids.Nodup)
    {S : Finset ℤ} (hS : ∀ a, a ∈ aoids ↔ a ∈ S) (h : Unwatched player aoids db db') :
    BulkResult player S db db' (aoids.filter fun a => decide (a ∈ watchlist db player))
      (aoids.filter fun a => decide (a ∉ watchlist db player)) where
  removed_eq := by
    ext a
    simp [hS]
  notWatched_eq := by
    ext a
    simp [hS]
  once := ⟨hnodup.filter _, hnodup.filter _⟩
  watchlist_eq := by
    have hset : aoids.toFinset = S := by
      ext a
      rw [List.mem_toFinset, hS]
    rw [h.watchlist_eq, hset]
  subscriptions_eq := by
    rw [h.subscriptions]
    unfold without
    simp only [hS]
  actions_eq := by
    obtain ⟨rows, hrows, hfields⟩ := h.actions
    refine ⟨rows, hrows, ?_⟩
    rw [hfields]
    have hperm : aoids.Perm S.toList := by
      rw [List.perm_ext_iff_of_nodup hnodup S.nodup_toList]
      intro a
      rw [hS, Finset.mem_toList]
    exact hperm.map _

/-- The loop over the numbers, with the reply it makes of them. -/
theorem returns_unsubscribeBulk (free : Undisturbed env player) (ready : Ready env w.db)
    {aoids : List ℤ} (haoids : ∀ a ∈ aoids, Fits a) :
    Returns (unsubscribeBulk env player aoids) w fun r w' =>
      BulkResult player aoids.toFinset w.db w'.db r.1 r.2 := by
  have hmem : ∀ a, a ∈ aoids.dedup.insertionSort (fun a b => a ≤ b) ↔ a ∈ aoids := by
    intro a
    rw [List.mem_insertionSort, List.mem_dedup]
  have hnodup : (aoids.dedup.insertionSort fun a b => a ≤ b).Nodup :=
    (List.perm_insertionSort _ _).nodup_iff.mpr (List.nodup_dedup _)
  unfold unsubscribeBulk
  generalize aoids.dedup.insertionSort (fun a b => a ≤ b) = sorted at hmem hnodup
  have hfits : ∀ a ∈ sorted, Fits a := fun a ha => haoids a ((hmem a).mp ha)
  refine (returns_unsubscribeEach free ready hfits hnodup).mono (fun r w' hr => ?_) fun _ _ h => h
  rw [hr.1]
  exact bulkResult_of_loop hnodup (fun a => by rw [hmem, List.mem_toFinset]) hr.2

/-- The bulk command answers with the two parts, and does what `BulkResult` says. -/
theorem returns_bulk (free : Undisturbed env player) (ready : Ready env w.db)
    {t : NumberList} (hreadable : Readable t.all) (m : Unwatches t.text msg) :
    Returns (handleCommand env player msg) w fun reply w' => ∃ removed notWatched,
      reply = bulkReply removed notWatched ∧
        BulkResult player (numbers t.all) w.db w'.db removed notWatched := by
  obtain ⟨t', hall, hselect⟩ := select_bulk m
  have hparse : (splitNumbers (strip (textOf [(1, String.ofList t'.text)] 1))).mapM
      (parseAoid env) = pure (t.all.map numberOf) := by
    have htext : textOf [(1, String.ofList t'.text)] 1 = String.ofList t'.text := rfl
    rw [htext, splitNumbers_text, hall]
    exact parseAll_eq fun n hn => ⟨(hreadable n hn).1, (hreadable n hn).2.1⟩
  have hfits : ∀ a ∈ t.all.map numberOf, Fits a := by
    intro a ha
    obtain ⟨n, hn, rfl⟩ := List.mem_map.mp ha
    exact (hreadable n hn).2.2
  have hbulk := returns_unsubscribeBulk (w := w.next) free ready hfits
  refine returns_selected free ready hselect ?_
  rw [dispatch_bulk, hparse, pure_bind]
  refine Returns.bind hbulk fun r w' hw' => Yields.pure ?_
  exact ⟨r.1, r.2, rfl, hw'⟩

/-- A message with one number. -/
theorem returns_one (free : Undisturbed env player) (ready : Ready env w.db) {n : String}
    (hreadable : IsNumber n ∧ n.length ≤ maxStrDigits ∧ Fits (numberOf n))
    (m : Unwatches n.toList msg) :
    Returns (handleCommand env player msg) w fun _ w' =>
      Unwatched player [numberOf n] w.db w'.db := by
  have hone := returns_unsubscribe (w := w.next) free ready hreadable.2.2
  have hparse : parseAoid env (textOf [(1, n)] 1) = pure (numberOf n) := by
    have htext : textOf [(1, n)] 1 = n := rfl
    unfold parseAoid
    rw [htext, hreadable.1.parse env.py hreadable.2.1]
  refine returns_selected free ready (select_one hreadable.1 m) ?_
  show Returns (parseAoid env (textOf [(1, n)] 1) >>= _) w.next _
  rw [hparse, pure_bind]
  exact Returns.bind hone fun _ _ hw' => Yields.pure hw'.2

/-- Single commands one after the other unwatch the same numbers. -/
theorem unwatched_of_each (free : Undisturbed env player) (ready : Ready env w.db)
    (hreadable : Readable texts) {msgs : List String}
    (h : List.Forall₂ (fun n msg => Nonempty (Unwatches n.toList msg)) texts msgs) :
    Unwatched player (texts.map numberOf) w.db (runEach env player msgs w).db := by
  induction h generalizing w with
  | nil => exact unwatched_nil w.db
  | cons hfirst _ ih =>
    obtain ⟨hn, hrest⟩ := List.forall_mem_cons.mp hreadable
    obtain ⟨m⟩ := hfirst
    obtain ⟨_, w', hrun, hone⟩ := Returns.exists_run (returns_one free ready hn m)
    have hothers := ih (ready.of_settings hone.settings) hrest
    show Unwatched player _ w.db (runEach env player _ ((handleCommand env player _).run w).2).db
    rw [hrun]
    exact hone.trans hothers

end Commands

/-- `market unwatch` with a list of numbers, over any mix of space and commas, unwatches the set
of the numbers: what was watched is removed, the rest is reported, nobody and nothing else is
touched, and single unwatch commands in any order leave the same subscriptions. -/
theorem bulk_unwatches_set {app : App} {player msg : String} {w : World} {t : NumberList}
    (h : SettingsHistory app w) (hseeded : Seeded w.db.settings)
    (henabled : readSetting app.env w.db "Enabled" = .ok (.bool true))
    (free : Undisturbed app.env player) (m : Unwatches t.text msg)
    (hsize : ∀ n ∈ t.all, n.length ≤ maxStrDigits ∧ Fits (numberOf n)) :
    ∃ removed notWatched w', (handleCommand app.env player msg).run w =
        (.ok (bulkReply removed notWatched), w') ∧
      BulkResult player (numbers t.all) w.db w'.db removed notWatched ∧
      ∀ order msgs, order.Perm t.all →
        List.Forall₂ (fun n msg => Nonempty (Unwatches n.toList msg)) order msgs →
        (runEach app.env player msgs w).db.subscriptions = w'.db.subscriptions := by
  have ready : Ready app.env w.db := ⟨henabled, h.reads_bool hseeded (by decide)⟩
  have hreadable : Readable t.all := fun n hn => ⟨t.numbers n hn, hsize n hn⟩
  obtain ⟨reply, w', hrun, removed, notWatched, rfl, hresult⟩ :=
    Returns.exists_run (returns_bulk free ready hreadable m)
  refine ⟨removed, notWatched, w', hrun, hresult, fun order msgs horder hmsgs => ?_⟩
  have heach := unwatched_of_each free ready (fun n hn => hreadable n (horder.mem_iff.mp hn)) hmsgs
  rw [heach.subscriptions, hresult.subscriptions_eq]
  unfold without
  have hmem : ∀ a, a ∈ order.map numberOf ↔ a ∈ numbers t.all := by
    intro a
    rw [numbers, List.mem_toFinset, (horder.map numberOf).mem_iff]
  simp only [hmem]

/-! A number with too many digits -/

/-- `int()` refuses the first number, and nothing is unwatched. -/
theorem run_long_number {env : Env} {player msg : String} {w : World} {t : NumberList}
    (free : Undisturbed env player) (ready : Ready env w.db) (m : Unwatches t.text msg)
    (hlong : maxStrDigits < t.first.length) : (handleCommand env player msg).run w =
      (.error (.value (intError env.py t.first)), w.next) := by
  obtain ⟨t', hall, hselect⟩ := select_bulk m
  have hfirst : parseAoid env t.first = throw (.value (intError env.py t.first)) := by
    unfold parseAoid
    rw [IsNumber.parse_long env.py (t.numbers _ List.mem_cons_self) hlong]
  have hparse : (splitNumbers (strip (textOf [(1, String.ofList t'.text)] 1))).mapM
      (parseAoid env) = throw (.value (intError env.py t.first)) := by
    have htext : textOf [(1, String.ofList t'.text)] 1 = String.ofList t'.text := rfl
    rw [htext, splitNumbers_text, hall, NumberList.all, List.mapM_cons, hfirst]
    rfl
  have hdispatch : (dispatch env player .unwatchBulk [(1, String.ofList t'.text)]).run w.next =
      (.error (.value (intError env.py t.first)), w.next) := by
    rw [dispatch_bulk, hparse]
    rfl
  unfold handleCommand
  rw [Coro.run_bind_ok (run_getBool_ok (free.up _) ready.enabled), hselect]
  show (dispatchReply env player .unwatchBulk _).run w.next = _
  unfold dispatchReply
  rw [Coro.run_handle, hdispatch]
  rfl

theorem one_space : [' '] ≠ [] ∧ ∀ c ∈ [' '], isSpace c = true := by
  refine ⟨List.cons_ne_nil _ _, fun c hc => ?_⟩
  rw [List.mem_singleton.mp hc]
  rfl

def unwatchMessage (body : List Char) : String :=
  String.ofList ("market".toList ++ ([' '] ++ ("unwatch".toList ++ ([' '] ++ (body ++ [])))))

def unwatchMessage_unwatches (body : List Char) : Unwatches body (unwatchMessage body) where
  cmd := "market".toList
  gap := [' ']
  verb := "unwatch".toList
  gap' := [' ']
  after := []
  split := String.toList_ofList
  market := Or.inl rfl
  unwatch := rfl
  gap_space := one_space
  gap'_space := one_space
  after_space := fun _ hc => absurd hc List.not_mem_nil

def paddedSeven (zeros : ℕ) : String := String.ofList (List.replicate zeros '0' ++ ['7'])

section Padded
variable (zeros : ℕ)

theorem paddedSeven_number : IsNumber (paddedSeven zeros) := by
  unfold paddedSeven IsNumber
  rw [String.toList_ofList]
  refine ⟨List.append_ne_nil_of_right_ne_nil _ (by simp), fun c hc => ?_⟩
  rcases List.mem_append.mp hc with hc | hc
  · rw [List.eq_of_mem_replicate hc]
    rfl
  · rw [List.mem_singleton.mp hc]
    rfl

theorem numberOf_paddedSeven : numberOf (paddedSeven zeros) = 7 := by
  unfold paddedSeven numberOf
  rw [String.toList_ofList, Nat.ofDigitChars_append, Nat.ofDigitChars_replicate_zero, Nat.mul_zero]
  rfl

theorem paddedSeven_length : (paddedSeven zeros).length = zeros + 1 := by
  unfold paddedSeven
  rw [String.length_ofList, List.length_append, List.length_replicate, List.length_singleton]

def sevenEight : NumberList where
  first := paddedSeven zeros
  rest := [([','], "8")]
  numbers := by
    intro n hn
    rcases List.mem_cons.mp hn with rfl | hn
    · exact paddedSeven_number zeros
    · rw [List.mem_singleton.mp hn]
      refine ⟨List.cons_ne_nil _ _, fun c hc => ?_⟩
      rw [List.mem_singleton.mp hc]
      rfl
  separators := by
    intro p hp
    rw [List.mem_singleton.mp hp]
    refine ⟨List.cons_ne_nil _ _, fun c hc => ?_⟩
    rw [List.mem_singleton.mp hc]
    rfl
  two := List.cons_ne_nil _ _

end Padded

def watchingWorld : World where
  db :=
    { toTables :=
        { users := [⟨"alice", false⟩, ⟨"bob", false⟩]
          watch := [⟨7, "Ring", 10, none, 0, none, false⟩, ⟨9, "Belt", 20, none, 0, none, false⟩]
          subscriptions := [{ player := "alice", aoid := 7, createdAt := 0 },
            { player := "bob", aoid := 7, createdAt := 0 },
            { player := "bob", aoid := 9, createdAt := 0 }]
          settings := enabledWorld.db.settings }
      sound := by
        constructor
        case setting_key => exact enabledWorld.db.sound.setting_key
        all_goals simp [Keyed, Refers, MarketSubscription.key] }

theorem watchingWorld_history : SettingsHistory stockedApp watchingWorld :=
  .elsewhere (.chat (.seed (.empty (w := { db := .empty }) rfl)) "Tara" "!settings Enabled true") rfl

theorem watchingWorld_seeded : Seeded watchingWorld.db.settings := enabledWorld_run.typed.2

theorem watchingWorld_enabled :
    readSetting stockedApp.env watchingWorld.db "Enabled" = .ok (.bool true) := by rfl

theorem bob_undisturbed : Undisturbed stockedApp.env "bob" where
  up _ := rfl
  name := rfl
  lookups _ _ := rfl
  privgroup _ h := nomatch h

/-- Bob unwatches 07 and 8. -/
theorem bob_unwatches_set :
    ∃ removed notWatched w', (handleCommand stockedApp.env "bob" (unwatchMessage (sevenEight 1).text)).run
        watchingWorld = (.ok (bulkReply removed notWatched), w') ∧
      BulkResult "bob" (numbers (sevenEight 1).all) watchingWorld.db w'.db removed notWatched ∧
      ∀ order msgs, order.Perm (sevenEight 1).all →
        List.Forall₂ (fun n msg => Nonempty (Unwatches n.toList msg)) order msgs →
        (runEach stockedApp.env "bob" msgs watchingWorld).db.subscriptions = w'.db.subscriptions := by
  refine bulk_unwatches_set watchingWorld_history watchingWorld_seeded watchingWorld_enabled
    bob_undisturbed (unwatchMessage_unwatches _) ?_
  have hall : (sevenEight 1).all = [paddedSeven 1, "8"] := rfl
  rw [hall]
  decide

example : ((handleCommand stockedApp.env "bob" "market unwatch 07, 8").run watchingWorld).1 =
    .ok "Stopped watching 1 item(s): 7.\nNot on your watchlist: 8." := by rfl

/-- Four thousand three hundred zeros before the seven, and Bob still watches item 7. -/
theorem padded_seven_stays_watched :
    SettingsHistory stockedApp watchingWorld ∧ Seeded watchingWorld.db.settings ∧
      readSetting stockedApp.env watchingWorld.db "Enabled" = .ok (.bool true) ∧
      Undisturbed stockedApp.env "bob" ∧
      Nonempty (Unwatches (sevenEight 4300).text (unwatchMessage (sevenEight 4300).text)) ∧
      (∀ n ∈ (sevenEight 4300).all, Fits (numberOf n)) ∧
      7 ∈ numbers (sevenEight 4300).all ∧
      7 ∈ watchlist ((handleCommand stockedApp.env "bob" (unwatchMessage (sevenEight 4300).text)).run
        watchingWorld).2.db "bob" := by
  have hall : ∀ zeros, (sevenEight zeros).all = [paddedSeven zeros, "8"] := fun _ => rfl
  have ready : Ready stockedApp.env watchingWorld.db :=
    ⟨watchingWorld_enabled, watchingWorld_history.reads_bool watchingWorld_seeded (by decide)⟩
  have hlong : maxStrDigits < (sevenEight 4300).first.length := by
    show maxStrDigits < (paddedSeven 4300).length
    rw [paddedSeven_length]
    decide
  refine ⟨watchingWorld_history, watchingWorld_seeded, watchingWorld_enabled, bob_undisturbed,
    ⟨unwatchMessage_unwatches _⟩, ?_, ?_, ?_⟩
  · intro n hn
    rw [hall] at hn
    rcases List.mem_cons.mp hn with rfl | hn
    · rw [numberOf_paddedSeven]
      decide
    · rw [List.mem_singleton.mp hn]
      decide
  · rw [numbers, hall, List.mem_toFinset, List.map_cons, numberOf_paddedSeven]
    exact List.mem_cons_self
  · rw [run_long_number bob_undisturbed ready (unwatchMessage_unwatches _) hlong, mem_watchlist]
    decide

end AoMarket.BulkUnwatch
