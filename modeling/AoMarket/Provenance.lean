import AoMarket.AlertOnce
import AoMarket.PollRuns
import AoMarket.Tracing

/-!
Where history rows and alerts come from. Whatever runs side by side, each row that a run adds
to the history sums up a book that the order service gave for an item found due, and each
alert, told or queued, goes to somebody who was subscribed, about orders of such a book that
were not there at the poll before and that pass the subscriber's filter.
-/

namespace AoMarket.Provenance

open Coroutine Interleaving Reliance Recording Tracing Relational Models Database OrderBook PyText
  Environment MarketRepo Polling Writes ServiceWrites HttpWrites Concurrency
open HttpRoutes (App Request serve onBot guardOf)

/-- The columns of the row that sum up the book. -/
structure SumsUp (env : Env) (book : Orders) (s : Summary) (row : MarketHistory) : Prop where
  sellCount : row.sellCount = book.sellOrders.length
  buyCount : row.buyCount = book.buyOrders.length
  minSell : bigintColumn env s.minSell = .ok row.minSellPrice
  maxBuy : bigintColumn env s.maxBuy = .ok row.maxBuyPrice
  avgSell : row.avgSellPrice = s.avgSell
  avgBuy : row.avgBuyPrice = s.avgBuy
  anchorSells : row.anchorSellCount = s.anchorSellCount
  anchorBuys : row.anchorBuyCount = s.anchorBuyCount

/-- The item was tracked, then the service gave the book, then the row was stored, each in a
turn of the same task. The row carries the time its transaction began: when the item was found
due, or when the row was stored. -/
inductive Faithful (env : Env) (turn : World → Prop) (row : MarketHistory) : Prop
  | intro (tracked asked stored : World) (watch : MarketWatch) (book : Orders) (s : Summary)
      (htracked : turn tracked) (hasked : turn asked) (hstored : turn stored)
      (hwatch : watch ∈ tracked.db.watch) (haoid : watch.aoid = row.aoid)
      (hbook : env.getOrders asked.tick row.aoid = .ok (some book))
      (hsummary : summarize env.py book watch.ql = .ok s) (hrow : SumsUp env book s row)
      (hts : row.ts = env.clock tracked.tick ∨ row.ts = env.clock stored.tick)
      (htimes : tracked.tick ≤ asked.tick ∧ asked.tick < stored.tick)

/-- The item was tracked, then the service gave the book, then the fingerprints of the poll
before were read, and then the subscription, which lets the new orders through. -/
inductive Justified (env : Env) (turn : World → Prop) (player : String) (aoid : ℤ)
    (orders : Fingerprinted) (message : String) : Prop
  | intro (tracked asked read found : World) (watch : MarketWatch) (book : Orders)
      (sub : MarketSubscription) (htracked : turn tracked) (hasked : turn asked)
      (hread : turn read) (hfound : turn found) (hwatch : watch ∈ tracked.db.watch)
      (haoid : watch.aoid = aoid) (hbook : env.getOrders asked.tick aoid = .ok (some book))
      (hbefore : seenFingerprints read.db aoid ≠ []) (hsub : sub ∈ found.db.subscriptions)
      (hplayer : sub.player = player) (hitem : sub.aoid = aoid)
      (horders : matching env.py (newOrders env book (seenFingerprints read.db aoid)) sub =
        some orders) (hsome : orders ≠ [])
      (hfresh : ∀ o ∈ orders, o.1 ∈ book.fingerprints env.py ∧
        o.1 ∉ seenFingerprints read.db aoid)
      (hmessage : formatAlert env.py watch.name aoid orders = .ok message)
      (htimes : tracked.tick ≤ asked.tick ∧ asked.tick < read.tick ∧ read.tick ≤ found.tick)

/-- Every alert told in the log was told with a message that somebody's turns justify. -/
def Told {ι : Type} (env : Env) (turns : ι → World → Prop) (noted : List Event) : Prop :=
  ∀ before player aoid orders after, noted = before ++ .alerted player aoid orders true :: after →
    ∃ earlier message i, before = earlier ++ [.tell player message] ∧
      Justified env (turns i) player aoid orders message

/-- What the run has added to `start` is accounted for. -/
structure Honest {ι : Type} (env : Env) (start : World) (t : Recorded ι World) : Prop where
  ticks : ∀ u, t.Saw u → u.tick ≤ t.now.tick
  history : ∀ row ∈ t.now.db.history, row ∈ start.db.history ∨
    ∃ i, Faithful env (t.Turn i) row
  queued : ∀ a ∈ t.now.db.pendingAlerts, a ∈ start.db.pendingAlerts ∨
    ∃ i orders, Justified env (t.Turn i) a.player a.aoid orders a.message
  told : ∃ noted, t.now.log = start.log ++ noted ∧ Told env t.Turn noted

variable {ι : Type} {i : ι} {env : Env} {start : World} {t u : Recorded ι World}

section Turns
variable {turn turn' : World → Prop} (hmore : ∀ w, turn w → turn' w)
include hmore

theorem Faithful.mono {row : MarketHistory} (h : Faithful env turn row) :
    Faithful env turn' row := by
  obtain ⟨tracked, asked, stored, watch, book, s, htracked, hasked, hstored⟩ := h
  exact ⟨tracked, asked, stored, watch, book, s, hmore _ htracked, hmore _ hasked,
    hmore _ hstored, ‹_›, ‹_›, ‹_›, ‹_›, ‹_›, ‹_›, ‹_›⟩

theorem Justified.mono {player : String} {aoid : ℤ} {orders : Fingerprinted} {message : String}
    (h : Justified env turn player aoid orders message) :
    Justified env turn' player aoid orders message := by
  obtain ⟨tracked, asked, read, found, watch, book, sub, htracked, hasked, hread, hfound⟩ := h
  exact ⟨tracked, asked, read, found, watch, book, sub, hmore _ htracked, hmore _ hasked,
    hmore _ hread, hmore _ hfound, ‹_›, ‹_›, ‹_›, ‹_›, ‹_›, ‹_›, ‹_›, ‹_›, ‹_›, ‹_›, ‹_›, ‹_›⟩

end Turns

theorem Told.mono {turns turns' : ι → World → Prop} {noted : List Event}
    (hmore : ∀ i w, turns i w → turns' i w) (h : Told env turns noted) : Told env turns' noted := by
  intro before player aoid orders after hsplit
  obtain ⟨earlier, message, i, hbefore, hjust⟩ := h before player aoid orders after hsplit
  exact ⟨earlier, message, i, hbefore, hjust.mono (hmore i)⟩

/-! Growing logs -/

theorem split_append {α : Type} {l m before after : List α} {x : α} (hx : x ∉ m)
    (h : l ++ m = before ++ x :: after) : ∃ after', l = before ++ x :: after' := by
  rcases List.append_eq_append_iff.mp h with ⟨as, _, hm⟩ | ⟨bs, hl, hxs⟩
  · exact absurd (hm ▸ List.mem_append_right as List.mem_cons_self) hx
  · cases bs with
    | nil =>
      have hm : x :: after = m := hxs
      exact absurd (hm ▸ List.mem_cons_self) hx
    | cons b bs =>
      obtain ⟨rfl, _⟩ := List.cons.inj hxs
      exact ⟨bs, hl⟩

theorem told_append {noted note : List Event} (h : Told env t.Turn noted)
    (hnote : ∀ player aoid orders, Event.alerted player aoid orders true ∉ note) :
    Told env t.Turn (noted ++ note) := by
  intro before player aoid orders after hsplit
  obtain ⟨after', hold⟩ := split_append (hnote player aoid orders) hsplit
  exact h before player aoid orders after' hold

theorem told_tell {noted : List Event} {player message : String} {aoid : ℤ} {orders : Fingerprinted}
    (h : Told env t.Turn noted) (hjust : Justified env (t.Turn i) player aoid orders message) :
    Told env t.Turn (noted ++ [.tell player message, .alerted player aoid orders true]) := by
  have htell : Told env t.Turn (noted ++ [.tell player message]) :=
    told_append h (by simp)
  have hassoc : noted ++ [.tell player message, .alerted player aoid orders true] =
      (noted ++ [.tell player message]) ++ [.alerted player aoid orders true] := by simp
  rw [hassoc]
  intro before player' aoid' orders' after hsplit
  rcases List.append_eq_append_iff.mp hsplit with ⟨as, hbefore, hlast⟩ | ⟨bs, hold, hxs⟩
  · cases as with
    | nil =>
      obtain ⟨hevent, _⟩ := List.cons.inj hlast
      cases hevent
      exact ⟨noted, message, i, by rw [hbefore, List.append_nil], hjust⟩
    | cons a as =>
      obtain ⟨_, hnil⟩ := List.cons.inj hlast
      cases as <;> cases hnil
  · cases bs with
    | nil =>
      rw [List.append_nil] at hold
      obtain ⟨hevent, _⟩ := List.cons.inj hxs
      cases hevent
      exact ⟨noted, message, i, hold.symm, hjust⟩
    | cons b bs =>
      obtain ⟨rfl, _⟩ := List.cons.inj hxs
      exact htell before player' aoid' orders' bs hold

/-! Everything but the rows and alerts of a cycle -/

/-- The writes that add neither a history row nor an alert. -/
def Quiet : Write → Prop
  | .insertHistory _ _ | .queueAlert _ _ | .alertTell _ _ => False
  | _ => True

section Effects
variable {op : Write} {db db' : Db} {note : List Event}

theorem history_of_effect (h : Effect op db db' note) (hop : Quiet op) :
    ∀ row ∈ db'.history, row ∈ db.history := by
  have hsame : db'.history = db.history → ∀ row ∈ db'.history, row ∈ db.history :=
    fun heq row hrow => by rwa [heq] at hrow
  cases h with
  | insertHistory => exact hop.elim
  | deleteWatch _ aoid => exact fun row hrow => (mem_cascade.mp hrow).1
  | clearWatch => exact fun row hrow => (mem_cascade.mp hrow).1
  | deleteStale _ aoids => exact fun row hrow => (mem_cascade.mp hrow).1
  | pruneHistory _ p => exact fun row hrow => (mem_deleteRows.mp hrow).1
  | insertUser player h => exact hsame (by rw [Db.insertUser_eq_some h])
  | insertWatch row hnew h => exact hsame (by rw [(Db.insertWatch_eq_some h).2])
  | insertSubscription row h => exact hsame (by rw [Db.insertSubscription_eq_some h])
  | createKey player keyHash keyPrefix now h => exact hsame (by rw [Db.insertApiKey_eq_some h])
  | seedSettings _ rows =>
    obtain ⟨settings, htables⟩ := Db.seedSettings_tables rows db
    exact hsame (by rw [htables])
  | _ => exact hsame rfl

theorem alerts_of_effect (h : Effect op db db' note) (hop : Quiet op) :
    ∀ a ∈ db'.pendingAlerts, a ∈ db.pendingAlerts := by
  have hsame : db'.pendingAlerts = db.pendingAlerts →
      ∀ a ∈ db'.pendingAlerts, a ∈ db.pendingAlerts := fun heq a ha => by rwa [heq] at ha
  cases h with
  | queueAlert => exact hop.elim
  | eraseUser _ player => exact fun a ha => (mem_deleteRows.mp ha).1
  | deleteAlerts _ player ids => exact fun a ha => (mem_deleteRows.mp ha).1
  | insertHistory => exact hop.elim
  | insertUser player h => exact hsame (by rw [Db.insertUser_eq_some h])
  | insertWatch row hnew h => exact hsame (by rw [(Db.insertWatch_eq_some h).2])
  | insertSubscription row h => exact hsame (by rw [Db.insertSubscription_eq_some h])
  | createKey player keyHash keyPrefix now h => exact hsame (by rw [Db.insertApiKey_eq_some h])
  | seedSettings _ rows =>
    obtain ⟨settings, htables⟩ := Db.seedSettings_tables rows db
    exact hsame (by rw [htables])
  | _ => exact hsame rfl

theorem untold_of_effect (h : Effect op db db' note) (hop : Quiet op) (player : String) (aoid : ℤ)
    (orders : Fingerprinted) : Event.alerted player aoid orders true ∉ note := by
  cases h with
  | alertTell => exact hop.elim
  | queueAlert => exact hop.elim
  | _ => simp

end Effects

/-- A move that adds accounted rows, accounted alerts and a note of accounted tells. -/
theorem honest_move (ht : Honest env start t) {w : World} {note : List Event}
    (htick : t.now.tick ≤ w.tick) (hlog : w.log = t.now.log ++ note)
    (hhistory : ∀ row ∈ w.db.history, row ∈ t.now.db.history ∨
      ∃ i', Faithful env ((t.move i w).Turn i') row)
    (halerts : ∀ a ∈ w.db.pendingAlerts, a ∈ t.now.db.pendingAlerts ∨
      ∃ i' orders, Justified env ((t.move i w).Turn i') a.player a.aoid orders a.message)
    (htold : ∀ noted, Told env (t.move i w).Turn noted → Told env (t.move i w).Turn (noted ++ note)) :
    Honest env start (t.move i w) := by
  obtain ⟨noted, hnoted, hbefore⟩ := ht.told
  have hlater := later_move i w t
  refine ⟨tick_le_move ht.ticks htick, fun row hrow => ?_, fun a ha => ?_, noted ++ note, ?_,
    htold noted (hbefore.mono hlater.turn)⟩
  · rcases hhistory row hrow with hold | hnew
    · refine (ht.history row hold).imp_right fun h => ?_
      obtain ⟨j, hfaithful⟩ := h
      exact ⟨j, hfaithful.mono (hlater.turn j)⟩
    · exact Or.inr hnew
  · rcases halerts a ha with hold | hnew
    · refine (ht.queued a hold).imp_right fun h => ?_
      obtain ⟨j, orders, hjust⟩ := h
      exact ⟨j, orders, hjust.mono (hlater.turn j)⟩
    · exact Or.inr hnew
  · show w.log = start.log ++ (noted ++ note)
    rw [hlog, hnoted, List.append_assoc]

/-- Quiet writes leave everything accounted for. -/
theorem honest_quiet {w : World} (h : Steps Quiet t.now w) (ht : Honest env start t) :
    Honest env start (t.move i w) := by
  obtain ⟨htick, note, hlog, hdb⟩ := h
  have htick' : t.now.tick ≤ w.tick := by omega
  rcases hdb with ⟨hsame, hsilent⟩ | ⟨op, hop, heffect⟩
  · refine honest_move ht htick' hlog (fun row hrow => Or.inl (hsame ▸ hrow))
      (fun a ha => Or.inl (hsame ▸ ha)) fun noted h => told_append h ?_
    intro player aoid orders hmem
    have hplain := hsilent _ hmem
    simp [plain] at hplain
  · exact honest_move ht htick' hlog (fun row hrow => Or.inl (history_of_effect heffect hop row hrow))
      (fun a ha => Or.inl (alerts_of_effect heffect hop a ha))
      fun noted h => told_append h (untold_of_effect heffect hop)

theorem honest_start (env : Env) (w : World) : Honest (ι := ι) env w ⟨w, []⟩ where
  ticks := tick_le_start w
  history := fun _ h => Or.inl h
  queued := fun _ h => Or.inl h
  told := ⟨[], by simp, fun before player aoid orders after hsplit => by
    cases before <;> cases hsplit⟩

instance : Accountable (ι := ι) (Honest env start) (Steps Quiet) where
  ticks := fun _ u h hu => h.ticks u hu
  quiet := fun _ _ _ hs h => honest_quiet hs h
  next := Steps.next

/-! A cycle -/

def Found (i : ι) (t : Recorded ι World) (began : Option ℕ) (watch : MarketWatch) : Prop :=
  ∃ tracked, t.Turn i tracked ∧ watch ∈ tracked.db.watch ∧ ∀ tick ∈ began, tick = tracked.tick

/-- Then the service gave the book. -/
inductive Got (env : Env) (i : ι) (t : Recorded ι World) (began : Option ℕ) (watch : MarketWatch)
    (book : Orders) : Prop
  | intro (tracked asked : World) (htracked : t.Turn i tracked) (hasked : t.Turn i asked)
      (hwatch : watch ∈ tracked.db.watch) (hbegan : ∀ tick ∈ began, tick = tracked.tick)
      (hbook : env.getOrders asked.tick watch.aoid = .ok (some book))
      (htimes : tracked.tick ≤ asked.tick ∧ asked.tick < t.now.tick)

variable {began : Option ℕ}

theorem Found.later {watch : MarketWatch} (h : Found i t began watch) (hlater : Later t u) :
    Found i u began watch := by
  obtain ⟨tracked, hseen, hfound⟩ := h
  exact ⟨tracked, hlater.turn i tracked hseen, hfound⟩

/-- The next item's turn has a transaction of its own. -/
theorem Found.committed {watch : MarketWatch} (h : Found i t began watch) :
    Found i t none watch := by
  obtain ⟨tracked, hseen, hwatch, _⟩ := h
  exact ⟨tracked, hseen, hwatch, by simp⟩

theorem Got.later {watch : MarketWatch} {book : Orders} (h : Got env i t began watch book)
    (hu : Honest env start u) (hlater : Later t u) : Got env i u began watch book := by
  obtain ⟨tracked, asked, htracked, hasked, hwatch, hbegan, hbook, hbefore, hafter⟩ := h
  exact ⟨tracked, asked, hlater.turn i _ htracked, hlater.turn i _ hasked, hwatch, hbegan, hbook,
    hbefore, hafter.trans_le (Accountable.tick_le hu hlater)⟩

theorem mem_of_window {α : Type} {limit offset : ℤ} {rows shown : List α} {a : α}
    (h : window limit offset rows = .ok shown) (ha : a ∈ shown) : a ∈ rows := by
  obtain ⟨_, _, h⟩ := except_bind_eq_ok.mp h
  obtain ⟨_, _, h⟩ := except_bind_eq_ok.mp h
  split at h
  · cases h
  · cases h
    exact List.mem_of_mem_drop (List.mem_of_mem_take ha)

theorem accounts_dueForPoll (ht : Honest env start t) (polled batchSize : ℤ) :
    Accounts (Honest env start) i (dueForPoll env polled batchSize) t fun due u =>
      ∀ watch ∈ due.2, Found i u (some due.1) watch := by
  refine accounts_query (fun w => Steps.noted Silent.nil) ht fun w u due _ hseen _ hdue => ?_
  obtain ⟨items, hitems, hdue⟩ := except_bind_eq_ok.mp hdue
  cases hdue
  intro watch hwatch
  have hsorted := mem_of_window hitems hwatch
  rw [List.mem_insertionSort, (env.watchOrder_perm _ _).mem_iff] at hsorted
  exact ⟨w, hseen, (List.mem_filter.mp hsorted).1, fun tick htick => (Option.some.inj htick).symm⟩

/-- The due items are rows of the table, read by the select with which a transaction begins. -/
theorem accounts_selectDue (ht : Honest env start t) :
    Accounts (Honest env start) i (selectDue env) t fun due u =>
      ∀ watch ∈ due.items, Found i u (some due.began) watch := by
  refine Accounts.bind ht (accounts_quiet (keeps_external fun _ => Silent.nil) ht)
    fun now u hu _ _ => ?_
  refine Accounts.bind hu (accounts_quiet (keeps_getInt _) hu) fun retentionDays u hu _ _ => ?_
  refine Accounts.bind hu (accounts_quiet (keeps_getInt _) hu) fun expireDays u hu _ _ => ?_
  refine Accounts.bind hu (accounts_quiet (keeps_getInt _) hu) fun intervalMinutes u hu _ _ => ?_
  refine Accounts.bind hu (accounts_quiet (keeps_getInt _) hu) fun batchSize u hu _ _ => ?_
  refine Accounts.ofExcept_bind hu fun stale _ => ?_
  refine Accounts.bind hu (accounts_quiet (keeps_expireStaleWatch (fun _ => trivial) _) hu)
    fun expired u hu _ _ => ?_
  refine Accounts.ofExcept_bind hu fun old _ => ?_
  refine Accounts.bind hu (accounts_quiet (keeps_pruneHistory trivial _) hu) fun _ u hu _ _ => ?_
  refine Accounts.ofExcept_bind hu fun polled _ => ?_
  exact Accounts.bind hu (accounts_dueForPoll hu _ _) fun items u hu _ h => Accounts.pure hu h

/-- The book that the order service gives for a tracked item is one the task has got. -/
theorem accounts_getOrders (ht : Honest env start t) {watch : MarketWatch}
    (hwatch : Found i t began watch) :
    Accounts (Honest env start) i (getOrders env watch.aoid) t fun orders u =>
      ∀ book, orders = some book → Got env i u began watch book := by
  refine accounts_external ht fun u hu hlater orders horders => ?_
  obtain ⟨tracked, hseen, hmem, hbegan⟩ := hwatch
  have htracked := hu.ticks _ (hlater.saw _ (Or.inr ⟨i, hseen⟩))
  refine ⟨honest_quiet ?_ hu, ?_⟩
  · cases orders with
    | none => exact Steps.noted Silent.nil
    | some book => exact ⟨rfl, _, rfl, Or.inr ⟨.fetch watch.aoid, trivial, .fetch _ _ book⟩⟩
  · rintro book rfl
    exact ⟨tracked, u.now, (later_move i _ u).turn i _ (hlater.turn i _ hseen), u.turn_now i _,
      hmem, hbegan, horders, htracked, Nat.lt_succ_self _⟩

/-- The row that _snapshot stores sums up the book in hand. -/
theorem accounts_snapshot (ht : Honest env start t) {watch : MarketWatch} {book : Orders}
    (hgot : Got env i t began watch book) (cycle : ℤ) :
    Accounts (Honest env start) i (snapshot env cycle began watch.aoid book watch.ql) t
      fun _ _ => True := by
  refine Accounts.ofExcept_bind ht fun s hs => ?_
  refine accounts_statement ht fun u hu hlater _ db note hres => ⟨?_, trivial⟩
  obtain ⟨minSell, hmin, hres⟩ := except_bind_eq_ok.mp hres
  obtain ⟨maxBuy, hmax, hres⟩ := except_bind_eq_ok.mp hres
  obtain ⟨_, _, hres⟩ := except_bind_eq_ok.mp hres
  obtain ⟨_, _, hres⟩ := except_bind_eq_ok.mp hres
  obtain ⟨db', hdb, hres⟩ := except_bind_eq_ok.mp hres
  cases hres
  have hinserted := Db.insertHistory_eq_some (orRefused_eq_ok hdb)
  refine honest_move hu (Nat.le_succ _) rfl ?_ ?_ fun noted h => told_append h (by simp)
  · intro row hrow
    obtain ⟨tracked, asked, htracked, hasked, hmem, hbegan, hbook, hbefore, hafter⟩ := hgot
    have hts : env.clock (began.getD u.now.tick) = env.clock tracked.tick ∨
        env.clock (began.getD u.now.tick) = env.clock u.now.tick := by
      cases began with
      | none => exact Or.inr rfl
      | some tick => exact Or.inl (congrArg env.clock (hbegan tick rfl))
    have hlate := Accountable.tick_le hu hlater
    have hmoved : ∀ w v, t.Turn i v → (u.move i w).Turn i v :=
      fun w v hv => (later_move i w u).turn i v (hlater.turn i v hv)
    rw [hinserted] at hrow
    rcases List.mem_append.mp hrow with hold | hnew
    · exact Or.inl hold
    · rw [List.mem_singleton.mp hnew]
      exact Or.inr ⟨i, tracked, asked, u.now, watch, book, s, hmoved _ _ htracked, hmoved _ _ hasked,
        u.turn_now i _, hmem, rfl, hbook, hs,
        ⟨rfl, rfl, hmin, hmax, rfl, rfl, rfl, rfl⟩, hts, hbefore, by omega⟩
  · intro a ha
    rw [hinserted] at ha
    exact Or.inl ha

/-! Alerts -/

section Alerts
variable {watch : MarketWatch} {book : Orders} {player message : String} {aoid : ℤ}
  {orders : Fingerprinted}

theorem accounts_sendAlert (ht : Honest env start t)
    (hjust : Justified env (t.Turn i) player aoid orders message) :
    Accounts (Honest env start) i (sendTell env player message [.alerted player aoid orders true]) t
      fun _ _ => True := by
  unfold sendTell
  split
  · refine accounts_external ht fun u hu hlater _ _ => ⟨?_, trivial⟩
    exact honest_move hu (Nat.le_succ _) rfl (fun _ h => Or.inl h) (fun _ h => Or.inl h)
      fun noted h => told_tell h ((hjust.mono (hlater.turn i)).mono ((later_move i _ u).turn i))
  · exact Accounts.pure ht trivial

/-- A justified alert may be queued. -/
theorem accounts_queueAlert (ht : Honest env start t)
    (hjust : Justified env (t.Turn i) player aoid orders message) :
    Accounts (Honest env start) i
      (queuePendingAlert env player aoid message [.alerted player aoid orders false])
      t fun _ _ => True := by
  refine accounts_statement ht fun u hu hlater _ db note hres => ⟨?_, trivial⟩
  obtain ⟨_, _, hres⟩ := except_bind_eq_ok.mp hres
  cases hres
  refine honest_move hu (Nat.le_succ _) rfl (fun _ h => Or.inl h) ?_
    fun noted h => told_append h (by simp)
  intro a ha
  rcases List.mem_append.mp ha with hold | hnew
  · exact Or.inl hold
  · rw [List.mem_singleton.mp hnew]
    exact Or.inr ⟨i, orders, (hjust.mono (hlater.turn i)).mono ((later_move i _ u).turn i)⟩

theorem accounts_alertSubscriber (ht : Honest env start t)
    (hjust : Justified env (t.Turn i) player aoid orders message) :
    Accounts (Honest env start) i (alertSubscriber env aoid player message orders) t
      fun _ _ => True := by
  refine Accounts.bind ht (accounts_quiet (keeps_isOnline player) ht) fun online u hu hlater _ => ?_
  cases online with
  | true => exact accounts_sendAlert hu (hjust.mono (hlater.turn i))
  | false => exact accounts_queueAlert hu (hjust.mono (hlater.turn i))

def Grounds (env : Env) (i : ι) (t : Recorded ι World) (aoid : ℤ) (itemName : String)
    (newOrders : Fingerprinted) (subs : List MarketSubscription) : Prop :=
  ∀ sub ∈ subs, ∀ orders message, matching env.py newOrders sub = some orders → orders ≠ [] →
    formatAlert env.py itemName aoid orders = .ok message →
      Justified env (t.Turn i) sub.player aoid orders message

theorem orTypeError_eq_ok {α : Type} {r : Option α} {a : α} (h : Rendering.orTypeError r = .ok a) :
    r = some a := by
  cases r with
  | none => cases h
  | some b => exact congrArg some (Except.ok.inj h)

/-- Every alert of the loop has its grounds. -/
theorem accounts_notifyEach {itemName : String} {newOrders : Fingerprinted}
    {subs : List MarketSubscription} (ht : Honest env start t)
    (h : Grounds env i t aoid itemName newOrders subs) :
    Accounts (Honest env start) i (notifyEach env aoid itemName newOrders subs) t
      fun _ _ => True := by
  induction subs generalizing t with
  | nil => exact Accounts.pure ht trivial
  | cons sub rest ih =>
    have hrest : ∀ {u}, Later t u → Grounds env i u aoid itemName newOrders rest :=
      fun hlater s hs orders message hmatch hsome hformat =>
        (h s (List.mem_cons_of_mem sub hs) orders message hmatch hsome hformat).mono (hlater.turn i)
    refine Accounts.ofExcept_bind ht fun orders hmatch => ?_
    split
    · exact ih ht (hrest (Later.refl _))
    · next hsome =>
      refine Accounts.ofExcept_bind ht fun message hformat => ?_
      have hjust := h sub List.mem_cons_self orders message (orTypeError_eq_ok hmatch)
        (by simpa using hsome) hformat
      refine Accounts.bind ht (accounts_alertSubscriber ht hjust) fun _ u hu hlater _ => ?_
      exact Accounts.bind hu (ih hu (hrest hlater)) fun _ v hv _ _ => Accounts.pure hv trivial

/-- The fingerprints of the poll before were read after the book was given. -/
inductive Compared (env : Env) (i : ι) (t : Recorded ι World) (watch : MarketWatch) (book : Orders)
    (seen : List String) : Prop
  | intro (tracked asked read : World) (htracked : t.Turn i tracked) (hasked : t.Turn i asked)
      (hread : t.Turn i read) (hwatch : watch ∈ tracked.db.watch)
      (hbook : env.getOrders asked.tick watch.aoid = .ok (some book))
      (hseen : seen = seenFingerprints read.db watch.aoid)
      (htimes : tracked.tick ≤ asked.tick ∧ asked.tick < read.tick)

theorem accounts_getSeen (ht : Honest env start t) (hgot : Got env i t began watch book) :
    Accounts (Honest env start) i (getSeenFingerprints env watch.aoid) t fun seen u =>
      Compared env i u watch book seen := by
  refine accounts_query (fun w => Steps.noted Silent.nil) ht fun w u seen hlate hread hlater
    hseen => ?_
  obtain ⟨tracked, asked, htracked, hasked, hmem, _, hbook, hbefore, hafter⟩ := hgot
  exact ⟨tracked, asked, w, hlater.turn i _ htracked, hlater.turn i _ hasked, hread, hmem, hbook,
    (Except.ok.inj hseen).symm, hbefore, hafter.trans_le hlate⟩

theorem fresh_of_matching {seen : List String} {sub : MarketSubscription}
    (h : matching env.py (newOrders env book seen) sub = some orders) :
    ∀ o ∈ orders, o.1 ∈ book.fingerprints env.py ∧ o.1 ∉ seen := by
  intro o ho
  have hnew := AlertOnce.mem_of_filterChecked h ho
  exact PollTurn.mem_newFingerprints.mp
    (PollTurn.mem_newFingerprints_of_newOrders (List.mem_map_of_mem hnew))

theorem accounts_notifySubscribers {seen : List String} (ht : Honest env start t)
    (hcompared : Compared env i t watch book seen) (hsome : seen ≠ []) :
    Accounts (Honest env start) i
      (notifySubscribers env watch.aoid watch.name (newOrders env book seen)) t
      fun _ _ => True := by
  obtain ⟨tracked, asked, read, htracked, hasked, hread, hmem, hbook, rfl, hbefore, hafter⟩ :=
    hcompared
  refine Accounts.bind (F := fun subs u => Grounds env i u watch.aoid watch.name
    (newOrders env book (seenFingerprints read.db watch.aoid)) subs) ht ?_
    fun subs u hu _ hgrounds => accounts_notifyEach hu hgrounds
  refine accounts_query (fun w => ⟨rfl, _, rfl, Or.inr ⟨.notify watch.aoid, trivial,
    .notify _ _ _⟩⟩) ht fun found u subs hlate hfound hlater hsubs => ?_
  intro sub hsub orders message hmatch hsome' hformat
  cases hsubs
  rw [(env.rowOrder_perm _ _).mem_iff] at hsub
  obtain ⟨hrow, hitem⟩ := List.mem_filter.mp hsub
  exact ⟨tracked, asked, read, found, watch, book, sub, hlater.turn i _ htracked,
    hlater.turn i _ hasked, hlater.turn i _ hread, hfound, hmem, rfl, hbook, hsome, hrow, rfl,
    by simpa using hitem, hmatch, hsome', fresh_of_matching hmatch, hformat, hbefore, hafter,
    (ht.ticks _ (Or.inr ⟨i, hread⟩)).trans hlate⟩

/-- What a book leads to is accounted for: its alerts by the fingerprints read after the book
was given. -/
theorem accounts_detectNewOrders (ht : Honest env start t) (hgot : Got env i t began watch book) :
    Accounts (Honest env start) i (detectNewOrders env watch.aoid book watch.name) t
      fun _ _ => True := by
  refine Accounts.bind ht (accounts_getSeen ht hgot) fun seen u hu _ hcompared => ?_
  have hreplace : ∀ {v}, Honest env start v → Accounts (Honest env start) i
      (replaceSeenFingerprints env watch.aoid (book.fingerprints env.py)) v fun _ _ => True :=
    fun hv => accounts_quiet (keeps_replaceSeenFingerprints trivial _) hv
  dsimp only
  split
  · next hfirst =>
    split
    · refine Accounts.bind hu (accounts_notifySubscribers hu hcompared ?_)
        fun _ v hv _ _ => hreplace hv
      simpa using hfirst
    · exact hreplace hu
  · exact hreplace hu

end Alerts

/-! Whole cycles -/

theorem accounts_pollItem (ht : Honest env start t) (now : ℤ) {watch : MarketWatch}
    (hwatch : Found i t began watch) :
    Accounts (Honest env start) i (pollItem env now began watch) t fun _ _ => True := by
  have hupdate : ∀ {v} (found : Bool), Honest env start v → Accounts (Honest env start) i (do
      updateLastPolled env watch.aoid now
      return found) v fun _ _ => True := fun found hv =>
    Accounts.bind hv (accounts_quiet (keeps_updateLastPolled trivial) hv) fun _ v' hv' _ _ =>
      Accounts.pure hv' trivial
  refine Accounts.bind ht (accounts_getOrders ht hwatch) fun orders u hu _ hgot => ?_
  cases orders with
  | none => exact hupdate _ hu
  | some book =>
    have hbook := hgot book rfl
    refine Accounts.bind hu (accounts_snapshot hu hbook now) fun _ v hv hlater _ => ?_
    exact Accounts.bind hv (accounts_detectNewOrders hv (hbook.later hv hlater))
      fun _ v' hv' _ _ => hupdate _ hv'

theorem accounts_pollItems (ht : Honest env start t) (now : ℤ) {items : List MarketWatch}
    (h : ∀ watch ∈ items, Found i t began watch) :
    Accounts (Honest env start) i (pollItems env now began items) t fun _ _ => True := by
  induction items generalizing began t with
  | nil => exact Accounts.pure ht trivial
  | cons watch rest ih =>
    refine Accounts.bind ht (accounts_pollItem ht now (h watch List.mem_cons_self))
      fun _ u hu hlater _ => ?_
    have hrest : ∀ x ∈ rest, Found i u none x := fun x hx =>
      ((h x (List.mem_cons_of_mem watch hx)).later hlater).committed
    refine Accounts.bind hu (ih hu hrest) fun _ v hv _ _ => Accounts.pure hv trivial

theorem accounts_pollMarket (ht : Honest env start t) :
    Accounts (Honest env start) i (pollMarket env) t fun _ _ => True := by
  refine Accounts.bind ht (accounts_selectDue ht) fun due u hu _ hfound => ?_
  refine Accounts.bind hu (accounts_pollItems hu due.now hfound) fun updated v hv _ _ => ?_
  exact Accounts.bind hv (accounts_quiet (keeps_announceCycle due updated) hv)
    fun _ v' hv' _ _ => Accounts.pure hv' trivial

/-! Tasks -/

section Tasks
variable {app : App}

def Polls : Task → Prop
  | .activity .poll | .activity (.request _ .triggerPoll) => True
  | _ => False

theorem quiet_of_background {op : Write} (h : PollRuns.Background op) : Quiet op := by
  cases op with
  | insertHistory | queueAlert | alertTell => exact h
  | _ => trivial

theorem quiet_of_requestWrites {request : Request} (h : request ≠ .triggerPoll) {op : Write}
    (hop : RequestWrites request op) : Quiet op := by
  cases request with
  | triggerPoll => exact absurd rfl h
  | register | unsubscribe => rcases hop with rfl | rfl <;> trivial
  | updateSetting | startWatching | stopTracking | updateFilter | clearFilter =>
    cases hop
    trivial
  | subscribe => rcases hop with rfl | rfl | rfl <;> trivial
  | bulkUnsubscribe => rcases hop with rfl | ⟨_, _, rfl⟩ <;> trivial
  | unsubscribeAll => rcases hop.2 with rfl | rfl <;> trivial
  | unregister | untrackAll =>
    cases hop.2
    trivial
  | triggerAutotrack => rcases hop with rfl | rfl | ⟨_, rfl⟩ | rfl <;> trivial
  | _ => exact hop.elim

theorem quiet_of_taskWrites {task : Task} (hquiet : ¬ Polls task) {op : Write}
    (h : TaskWrites task op) : Quiet op := by
  cases task with
  | startup =>
    cases h
    trivial
  | activity a =>
    cases a with
    | poll => exact absurd trivial hquiet
    | sync => exact @quiet_of_requestWrites .triggerAutotrack (by simp) op h
    | online player =>
      cases h
      trivial
    | tell nameForId tell =>
      rcases h with rfl | ⟨name, gs, _, hop⟩
      · trivial
      · exact quiet_of_background (PollRuns.background_of_commandWrites hop)
    | request xApiKey request =>
      rcases h with rfl | h
      · trivial
      · refine quiet_of_requestWrites (fun heq => hquiet ?_) h
        rw [heq]
        trivial

theorem accounts_triggerPoll {start : World} {t : Recorded ι World}
    (ht : Honest app.env start t) (xApiKey : Option String) :
    Accounts (Honest app.env start) i (serve app xApiKey .triggerPoll) t fun _ _ => True := by
  refine accounts_serve_open xApiKey ht (HttpAccess.keeps_checkGuard trivial _ _) fun u hu => ?_
  show Accounts (Honest app.env start) i (onBot app (pollMarket app.env) .triggered) u _
  unfold onBot
  split
  · exact accounts_quiet (Coro.Frames.pure _) hu
  · exact Accounts.bind hu (accounts_pollMarket hu) fun _ v hv _ _ => Accounts.pure hv trivial

/-- Every task accounts for the rows and alerts it adds; only the tasks that poll add any. -/
theorem accounts_program {t : Recorded ι World} {start : World} (ht : Honest app.env start t)
    (task : Task) : Accounts (Honest app.env start) i (program app task) t fun _ _ => True := by
  by_cases hpolls : Polls task
  · cases task with
    | startup => exact hpolls.elim
    | activity a =>
      cases a with
      | poll => exact accounts_discarded (accounts_pollMarket ht) ht
      | request xApiKey request =>
        cases request with
        | triggerPoll => exact accounts_discarded (accounts_triggerPoll ht xApiKey) ht
        | _ => exact hpolls.elim
      | _ => exact hpolls.elim
  · exact accounts_quiet (Coro.Frames.mono (keeps_program task) fun _ _ h =>
      h.mono fun _ => quiet_of_taskWrites hpolls) ht

variable [DecidableEq ι]

/-- However cycles, commands and requests interleave, a row of the history that was not there
at the start sums up, at the quality the item was tracked with, a book that the order service
gave for an item that was tracked, and carries the time its transaction began. -/
theorem history_accounted (app : App) (tasks : ι → Task) (w : World) (schedule : List ι) :
    ∀ row ∈ (afterwards app tasks w schedule).db.history,
      row ∈ w.db.history ∨ ∃ i, Faithful app.env (TurnOf app tasks w schedule i) row := by
  obtain ⟨t, hnow, hturns, hhonest⟩ := traced (honest_start app.env w)
    (fun i => accounts_program (honest_start app.env w) (tasks i)) schedule
  rw [← hnow]
  refine fun row hrow => (hhonest.history row hrow).imp_right fun h => ?_
  obtain ⟨i, hfaithful⟩ := h
  exact ⟨i, hfaithful.mono (hturns i)⟩

def listedApp : App :=
  { HttpAccess.calmApp with
    env := { Env.calm with
      clock := fun tick => tick
      getOrders := fun _ _ => .ok (some AlertOnce.listed) } }

def pollTasks : Bool → Task
  | true => .activity .poll
  | false => .activity (.online "bob")

def pollTurns : List Bool := [false, true, false] ++ List.replicate 10 true

/-- The due list was read at tick 8, before the book was asked for. -/
def polledRow : MarketHistory :=
  ⟨1, 8, 1, 0, some 500, some 0, .int 0, .int 0, 0, 0⟩

theorem polled_accounted :
    polledRow ∈ AlertOnce.subscribed.history ∨
      ∃ i, Faithful listedApp.env
        (TurnOf listedApp pollTasks { db := AlertOnce.subscribed } pollTurns i) polledRow :=
  history_accounted listedApp pollTasks { db := AlertOnce.subscribed } pollTurns polledRow
    (by decide +kernel)

/-- However cycles, commands and requests interleave, every alert that was not there at the
start, queued or told, goes to a player who was subscribed, about orders of a book that the
service gave which the poll before had not seen and which pass the player's filter. -/
theorem alerts_accounted (app : App) (tasks : ι → Task) (w : World) (schedule : List ι) :
    (∀ a ∈ (afterwards app tasks w schedule).db.pendingAlerts, a ∈ w.db.pendingAlerts ∨
      ∃ i orders,
        Justified app.env (TurnOf app tasks w schedule i) a.player a.aoid orders a.message) ∧
    ∃ noted, (afterwards app tasks w schedule).log = w.log ++ noted ∧
      Told app.env (TurnOf app tasks w schedule) noted := by
  obtain ⟨t, hnow, hturns, hhonest⟩ := traced (honest_start app.env w)
    (fun i => accounts_program (honest_start app.env w) (tasks i)) schedule
  rw [← hnow]
  refine ⟨fun a ha => (hhonest.queued a ha).imp_right fun h => ?_, ?_⟩
  · obtain ⟨i, orders, hjust⟩ := h
    exact ⟨i, orders, hjust.mono (hturns i)⟩
  · obtain ⟨noted, hlog, htold⟩ := hhonest.told
    exact ⟨noted, hlog, htold.mono hturns⟩

end Tasks

end AoMarket.Provenance
