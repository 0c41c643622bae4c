import AoMarket.ServiceWrites

/-!
One turn of the poll loop, call by call. The definitions read off the answers of
the environment, tick by tick, which calls of a turn go through; the run lemmas
say that the turn does what they foretell.
-/

namespace AoMarket.PollTurn

open Coroutine Relational Models Database OrderBook PyText Environment MarketRepo
  MarketService Rendering Polling Writes ServiceWrites

variable {env : Env}

/-! One alert -/

theorem mem_newFingerprints {book : Orders} {seen : List String} {fp : String} :
    fp ∈ newFingerprints env book seen ↔ fp ∈ book.fingerprints env.py ∧ fp ∉ seen := by
  unfold newFingerprints
  rw [(env.setOrder_perm _ _).mem_iff]
  simp

theorem mem_newFingerprints_of_newOrders {book : Orders} {seen : List String} {fp : String}
    (h : fp ∈ (newOrders env book seen).map Prod.fst) : fp ∈ newFingerprints env book seen := by
  obtain ⟨o, ho, rfl⟩ := List.mem_map.mp h
  obtain ⟨fp, hfp, hmap⟩ := List.mem_filterMap.mp ho
  obtain ⟨order, _, rfl⟩ := Option.map_eq_some_iff.mp hmap
  exact hfp

/-- The orders and the text of a subscriber's alert; `none` if no order matches. -/
def alertFor (py : Runtime) (aoid : ℤ) (itemName : String) (newOrders : Fingerprinted)
    (sub : MarketSubscription) : Except PyErr (Option (Fingerprinted × String)) := do
  let orders ← orTypeError (matching py newOrders sub)
  if orders.isEmpty then
    return none
  let message ← formatAlert py itemName aoid orders
  return some (orders, message)

theorem notifyEach_cons (aoid : ℤ) (itemName : String) (newOrders : Fingerprinted)
    (sub : MarketSubscription) (rest : List MarketSubscription) :
    notifyEach env aoid itemName newOrders (sub :: rest) = (do
      match ← Coro.ofExcept (alertFor env.py aoid itemName newOrders sub) with
      | none => notifyEach env aoid itemName newOrders rest
      | some (orders, message) =>
        alertSubscriber env aoid sub.player message orders
        let notified ← notifyEach env aoid itemName newOrders rest
        return notified + 1) := by
  rw [notifyEach, alertFor]
  cases orTypeError (matching env.py newOrders sub) with
  | error e => rfl
  | ok orders =>
    cases orders with
    | nil => rfl
    | cons order others =>
      cases hmessage : formatAlert env.py itemName aoid (order :: others) with
      | error e => simp [Coro.ofExcept, bind, Coro.bind, Except.bind, hmessage]
      | ok message =>
        simp [Coro.ofExcept, bind, Coro.bind, Except.bind, hmessage, pure, Except.pure]

/-- How the calls that alert a player end: one of them raises, nothing is sent, or
the alert goes out as a tell or into the queue. The number is the tick of the last
call, or for `dropped` the next tick. -/
inductive Delivery where
  | fails (e : PyErr) (tick : ℕ)
  | dropped (tick : ℕ)
  | told (tick : ℕ)
  | queued (tick : ℕ)

def asked (env : Env) (player : String) (tick : ℕ) : Except PyErr Bool × ℕ :=
  match env.chat.isOnline with
  | some ask => (ask tick player, tick + 1)
  | none => (.ok false, tick)

def delivery (env : Env) (player message : String) (tick : ℕ) : Delivery :=
  match asked env player tick with
  | (.error e, t) => .fails e t
  | (.ok true, t) =>
    match env.chat.sendTell with
    | none => .dropped t
    | some send =>
      match send t player message with
      | .error e => .fails e (t + 1)
      | .ok _ => .told t
  | (.ok false, t) =>
    match env.dbFault t with
    | some e => .fails e (t + 1)
    | none =>
      match text env message with
      | .error e => .fails e (t + 1)
      | .ok _ => .queued t

namespace Delivery

def result : Delivery → Except PyErr Unit
  | fails e _ => .error e
  | _ => .ok ()

def next : Delivery → ℕ
  | fails _ t | dropped t => t
  | told t | queued t => t + 1

def finish : Delivery → Option ℕ
  | fails _ _ => none
  | d => some d.next

def note (player message : String) (aoid : ℤ) (orders : Fingerprinted) : Delivery → List Event
  | fails _ _ | dropped _ => []
  | told _ => [.tell player message, .alerted player aoid orders true]
  | queued _ => [.alerted player aoid orders false]

def db (env : Env) (player message : String) (aoid : ℤ) (old : Db) : Delivery → Db
  | queued t => old.insertAlert player aoid message (env.clock t)
  | _ => old

end Delivery

/-- Asking who is online is settled by `asked`. -/
theorem run_isOnline (player : String) (w : World) :
    (isOnline env player).run w =
      ((asked env player w.tick).1, { w with tick := (asked env player w.tick).2 }) := by
  unfold isOnline asked
  cases env.chat.isOnline with
  | none => rfl
  | some ask =>
    simp only [external, Coro.run_act]
    cases ask w.tick player with
    | error e => rfl
    | ok b => simp [World.next]

/-- Alerting a subscriber is settled by the delivery: the result, the events and the effect on
the queue. -/
theorem run_alertSubscriber (aoid : ℤ) (player message : String) (orders : Fingerprinted)
    (w : World) :
    (alertSubscriber env aoid player message orders).run w =
      ((delivery env player message w.tick).result,
        { db := (delivery env player message w.tick).db env player message aoid w.db
          tick := (delivery env player message w.tick).next
          log := w.log ++ (delivery env player message w.tick).note player message aoid orders }) := by
  unfold alertSubscriber delivery
  rw [Coro.run_bind, run_isOnline]
  rcases hasked : asked env player w.tick with ⟨_ | online, t⟩
  · simp [Delivery.result, Delivery.db, Delivery.next, Delivery.note]
  · cases online with
    | true =>
      unfold sendTell
      cases hsend : env.chat.sendTell with
      | none => simp [Delivery.result, Delivery.db, Delivery.next, Delivery.note]
      | some send =>
        simp only [external, if_true, Coro.run_act]
        cases send t player message with
        | error e => simp [Delivery.result, Delivery.db, Delivery.next, Delivery.note, World.next]
        | ok u => simp [Delivery.result, Delivery.db, Delivery.next, Delivery.note, World.next]
    | false =>
      simp only [queuePendingAlert, statement, Bool.false_eq_true, if_false, Coro.run_act]
      cases hfault : env.dbFault t with
      | some e => simp [Delivery.result, Delivery.db, Delivery.next, Delivery.note, World.next]
      | none =>
        cases htext : text env message with
        | error e =>
          simp [Delivery.result, Delivery.db, Delivery.next, Delivery.note, World.next, bind,
            Except.bind]
        | ok u =>
          simp [Delivery.result, Delivery.db, Delivery.next, Delivery.note, bind, Except.bind,
            pure, Except.pure]

/-! Which calls go through -/

/-- The run returns at the given tick, or raises if there is none. -/
def Ends {α : Type} (p : M α) (w : World) (t : Option ℕ) : Prop :=
  match p.run w with
  | (.ok _, w') => t = some w'.tick
  | (.error _, _) => t = none

section Ends
variable {α β : Type} {p : M α} {w : World} {t : Option ℕ}

theorem Ends.pure (a : α) (w : World) : Ends (pure a) w (some w.tick) := rfl

/-- A sequence ends where its second part does, which starts at the end of the first. -/
theorem Ends.bind {f : α → M β} {g : ℕ → Option ℕ} (hp : Ends p w t)
    (hf : ∀ a w', p.run w = (.ok a, w') → Ends (f a) w' (g w'.tick)) :
    Ends (p >>= f) w (t.bind g) := by
  rcases hrun : p.run w with ⟨e | a, w'⟩
  · simp only [Ends, hrun] at hp
    simp [Ends, Coro.run_bind_error hrun, hp]
  · simp only [Ends, hrun] at hp
    have hnext := hf a w' hrun
    rw [Ends, Coro.run_bind_ok hrun, hp]
    exact hnext

/-- What follows without a call ends at the same tick. -/
theorem Ends.map (hp : Ends p w t) (f : α → β) : Ends (p >>= fun a => Pure.pure (f a)) w t := by
  have h := Ends.bind (g := some) hp fun a w' _ => Ends.pure (f a) w'
  simpa using h

theorem Ends.isOk (h : Ends p w t) : (p.run w).1.isOk = t.isSome := by
  rcases hrun : p.run w with ⟨e | a, w'⟩
  · simp only [Ends, hrun] at h
    simp [h, Except.isOk, Except.toBool]
  · simp only [Ends, hrun] at h
    simp [h, Except.isOk, Except.toBool]

end Ends

theorem ends_alertSubscriber (aoid : ℤ) (player message : String) (orders : Fingerprinted)
    (w : World) : Ends (alertSubscriber env aoid player message orders) w
      (delivery env player message w.tick).finish := by
  rw [Ends, run_alertSubscriber]
  cases delivery env player message w.tick <;> rfl

section Alerts
variable (env) (aoid : ℤ) (itemName : String) (newOrders : Fingerprinted)

/-- The tick after the alerts to the subscribers, if all their calls go through. -/
def alertsEnd : List MarketSubscription → ℕ → Option ℕ
  | [], t => some t
  | sub :: rest, t =>
    match alertFor env.py aoid itemName newOrders sub with
    | .error _ => none
    | .ok none => alertsEnd rest t
    | .ok (some (_, message)) => (delivery env sub.player message t).finish.bind (alertsEnd rest)

/-- The loop ends where alertsEnd says, by induction over the subscriptions. -/
theorem ends_notifyEach (subs : List MarketSubscription) (w : World) :
    Ends (notifyEach env aoid itemName newOrders subs) w
      (alertsEnd env aoid itemName newOrders subs w.tick) := by
  induction subs generalizing w with
  | nil => rfl
  | cons sub rest ih =>
    rw [notifyEach_cons, alertsEnd]
    cases halert : alertFor env.py aoid itemName newOrders sub with
    | error e => rfl
    | ok alert =>
      cases alert with
      | none => exact ih w
      | some a =>
        obtain ⟨orders, message⟩ := a
        change Ends (do
          alertSubscriber env aoid sub.player message orders
          let notified ← notifyEach env aoid itemName newOrders rest
          return notified + 1) w _
        refine Ends.bind (ends_alertSubscriber aoid sub.player message orders w) fun _ w' _ => ?_
        exact (ih w').map fun notified => notified + 1

end Alerts

/-! The turn of one item -/

def subscribers (db : Db) (aoid : ℤ) : List MarketSubscription :=
  db.subscriptions.filter fun s => s.aoid == aoid

/-- The part of _detect_new_orders between reading and replacing the seen set. -/
def alertNew (env : Env) (aoid : ℤ) (orders : Orders) (itemName : String) (seen : List String) :
    M Unit := do
  if !seen.isEmpty then
    if newFingerprints env orders seen ≠ [] then
      let _ ← notifySubscribers env aoid itemName (newOrders env orders seen)

theorem alertNew_of_skip {aoid : ℤ} {orders : Orders} {itemName : String} {seen : List String}
    (h : seen = [] ∨ newFingerprints env orders seen = []) :
    alertNew env aoid orders itemName seen = pure () := by
  unfold alertNew
  rcases h with hseen | hnew
  · rw [if_neg (by simp [hseen])]
  · rw [if_neg (not_not.mpr hnew)]
    split <;> rfl

theorem alertNew_of_new {aoid : ℤ} {orders : Orders} {itemName : String} {seen : List String}
    (hseen : seen ≠ []) (hnew : newFingerprints env orders seen ≠ []) :
    alertNew env aoid orders itemName seen =
      (notifySubscribers env aoid itemName (newOrders env orders seen) >>= fun _ => pure ()) := by
  unfold alertNew
  rw [if_pos (by simpa using hseen), if_pos hnew]

/-- The seen set is read first and replaced last, whatever is alerted in between. -/
theorem detectNewOrders_eq (aoid : ℤ) (orders : Orders) (itemName : String) :
    detectNewOrders env aoid orders itemName = (do
      let seen ← getSeenFingerprints env aoid
      alertNew env aoid orders itemName seen
      replaceSeenFingerprints env aoid (orders.fingerprints env.py)) := by
  unfold detectNewOrders
  congr 1
  funext seen
  unfold alertNew
  cases seen.isEmpty with
  | true => rfl
  | false =>
    by_cases hnew : newFingerprints env orders seen = []
    · simp [hnew]
    · simp [hnew]

/-- A turn up to the update of last_polled. -/
def examine (env : Env) (now : ℤ) (began : Option ℕ) (watch : MarketWatch) : M Bool := do
  match ← getOrders env watch.aoid with
  | some book =>
    snapshot env now began watch.aoid book watch.ql
    detectNewOrders env watch.aoid book watch.name
    return true
  | none => return false

/-- A turn ends with the update of last_polled, also when there is no data. -/
theorem pollItem_eq (now : ℤ) (began : Option ℕ) (watch : MarketWatch) :
    pollItem env now began watch = (do
      let updated ← examine env now began watch
      updateLastPolled env watch.aoid now
      return updated) := by
  unfold pollItem examine
  rw [Coro.bind_assoc]
  congr 1
  funext orders
  cases orders with
  | none => rfl
  | some book => simp

theorem keeps_examine {A : Write → Prop} {now : ℤ} {began : Option ℕ} {watch : MarketWatch}
    (h : ∀ op, ExamineWrites watch.aoid now op → A op) : Keeps A (examine env now began watch) := by
  refine Coro.Frames.bind (keeps_getOrders (h _ (by simp [ExamineWrites]))) fun orders => ?_
  cases orders with
  | none => exact Coro.Frames.pure _
  | some book =>
    refine Coro.Frames.bind (keeps_snapshot (h _ (by simp [ExamineWrites])) _ _) fun _ => ?_
    exact Coro.Frames.bind (keeps_detectNewOrders h _ _) fun _ => Coro.Frames.pure _

/-- The tick at which the alerts of a book are done, if all their calls go through. -/
def passEnd (env : Env) (watch : MarketWatch) (book : Orders) (seen : List String)
    (subs : List MarketSubscription) (t : ℕ) : Option ℕ :=
  if seen = [] ∨ newFingerprints env book seen = [] then some t
  else if env.dbFault t = none then
    alertsEnd env watch.aoid watch.name (newOrders env book seen) (env.rowOrder t subs) (t + 1)
  else none

def StoresSeen (env : Env) (book : Orders) (t : ℕ) : Prop :=
  env.dbFault t = none ∧ ∀ fp ∈ book.fingerprints env.py, text env fp = .ok ()

instance (book : Orders) (t : ℕ) : Decidable (StoresSeen env book t) := by
  unfold StoresSeen
  have htext : ∀ fp, Decidable (text env fp = .ok ()) := by
    intro fp
    unfold text
    split
    · exact isTrue rfl
    · exact isFalse (by simp)
  infer_instance

def StoresSnapshot (env : Env) (watch : MarketWatch) (book : Orders) (db : Db) (t : ℕ) : Prop :=
  ∃ s, summarize env.py book watch.ql = .ok s ∧ env.dbFault t = none ∧
    (bigintColumn env s.minSell).isOk ∧ (bigintColumn env s.maxBuy).isOk ∧
    (numericColumn env s.avgSell).isOk ∧ (numericColumn env s.avgBuy).isOk ∧
    watch.aoid ∈ db.watch.map MarketWatch.aoid

/-- What follows the snapshot, up to the update of last_polled, goes through. -/
def Completes (env : Env) (watch : MarketWatch) (book : Orders) (db : Db) (t : ℕ) : Prop :=
  env.dbFault t = none ∧
    ∃ t', passEnd env watch book (seenFingerprints db watch.aoid) (subscribers db watch.aoid)
      (t + 1) = some t' ∧ StoresSeen env book t' ∧ env.dbFault (t' + 1) = none

/-- Every call of the turn goes through. -/
def ItemSafe (env : Env) (watch : MarketWatch) (w : World) : Prop :=
  match env.getOrders w.tick watch.aoid with
  | .error _ => False
  | .ok none => env.dbFault (w.tick + 1) = none
  | .ok (some book) => StoresSnapshot env watch book w.db (w.tick + 1) ∧
      Completes env watch book w.db (w.tick + 2)

theorem run_getOrders (aoid : ℤ) (w : World) :
    (getOrders env aoid).run w =
      match env.getOrders w.tick aoid with
      | .error e => (.error e, w.next)
      | .ok none => (.ok none, w.next)
      | .ok (some book) => (.ok (some book), { w.next with log := w.log ++ [.fetched aoid book] }) := by
  unfold getOrders external
  rw [Coro.run_act]
  dsimp only
  cases env.getOrders w.tick aoid with
  | error e => rfl
  | ok answer =>
    cases answer with
    | none => simp [World.next]
    | some book => rfl

theorem snapshot_of_summary {now : ℤ} {began : Option ℕ} {watch : MarketWatch} {book : Orders} {s : Summary}
    (hs : summarize env.py book watch.ql = .ok s) :
    snapshot env now began watch.aoid book watch.ql =
      insertSnapshot env now began watch.aoid book.sellOrders.length book.buyOrders.length
        s.minSell s.maxBuy s.avgSell s.avgBuy s.anchorSellCount s.anchorBuyCount := by
  unfold snapshot
  rw [hs]
  rfl

/-- The history row is stored when its numbers can be computed and the columns take them. -/
theorem run_snapshot {now : ℤ} {began : Option ℕ} {watch : MarketWatch} {book : Orders} {w : World}
    (h : StoresSnapshot env watch book w.db w.tick) :
    ∃ db, (snapshot env now began watch.aoid book watch.ql).run w =
      (.ok (), { db := db, tick := w.tick + 1, log := w.log ++ [.snapshot watch.aoid now] }) := by
  obtain ⟨s, hs, hdb, hmin, hmax, hsell, hbuy, haoid⟩ := h
  obtain ⟨minSell, hmin⟩ := isOk_iff.mp hmin
  obtain ⟨maxBuy, hmax⟩ := isOk_iff.mp hmax
  obtain ⟨_, hsell⟩ := isOk_iff.mp hsell
  obtain ⟨_, hbuy⟩ := isOk_iff.mp hbuy
  rw [snapshot_of_summary hs]
  let row : MarketHistory :=
    { aoid := watch.aoid, ts := env.clock (began.getD w.tick), sellCount := book.sellOrders.length,
      buyCount := book.buyOrders.length, minSellPrice := minSell, maxBuyPrice := maxBuy,
      avgSellPrice := s.avgSell, avgBuyPrice := s.avgBuy, anchorSellCount := s.anchorSellCount,
      anchorBuyCount := s.anchorBuyCount }
  have haccepts : ∃ db, w.db.insertHistory row = some db := Db.insertHistory_accepts.mpr haoid
  obtain ⟨db, hrow⟩ := haccepts
  refine ⟨db, run_statement_ok hdb ?_⟩
  simp [hmin, hmax, hsell, hbuy, row, hrow, orRefused, bind, Except.bind, pure, Except.pure]

/-- Otherwise the snapshot raises, and nothing is stored. -/
theorem run_snapshot_error {now : ℤ} {began : Option ℕ} {watch : MarketWatch} {book : Orders} {w : World}
    (h : ¬ StoresSnapshot env watch book w.db w.tick) :
    ∃ e w', (snapshot env now began watch.aoid book watch.ql).run w = (.error e, w') ∧
      w'.db = w.db ∧ w'.log = w.log := by
  cases hs : summarize env.py book watch.ql with
  | error e =>
    refine ⟨e, w, ?_, rfl, rfl⟩
    unfold snapshot
    rw [hs]
    rfl
  | ok s =>
    rw [snapshot_of_summary hs]
    unfold insertSnapshot
    rcases run_statement_cases w with ⟨e, hrun⟩ | ⟨hdb, a, db, note, hf, _⟩
    · exact ⟨e, w.next, hrun, rfl, rfl⟩
    · obtain ⟨_, hmin, hf⟩ := except_bind_eq_ok.mp hf
      obtain ⟨_, hmax, hf⟩ := except_bind_eq_ok.mp hf
      obtain ⟨_, hsell, hf⟩ := except_bind_eq_ok.mp hf
      obtain ⟨_, hbuy, hf⟩ := except_bind_eq_ok.mp hf
      obtain ⟨db', hrow, hf⟩ := except_bind_eq_ok.mp hf
      refine absurd ⟨s, hs, hdb, isOk_iff.mpr ⟨_, hmin⟩, isOk_iff.mpr ⟨_, hmax⟩,
        isOk_iff.mpr ⟨_, hsell⟩, isOk_iff.mpr ⟨_, hbuy⟩, ?_⟩ h
      exact Db.insertHistory_accepts.mp ⟨db', orRefused_eq_ok hrow⟩

/-- The writes of the alerts of a pass. -/
def PassWrites (aoid : ℤ) (op : Write) : Prop := op = .notify aoid ∨ AlertWrites aoid op

theorem keeps_alertNew (aoid : ℤ) (orders : Orders) (itemName : String) (seen : List String) :
    Keeps (PassWrites aoid) (alertNew env aoid orders itemName seen) := by
  unfold alertNew
  split
  · split
    · refine Coro.Frames.bind (keeps_notifySubscribers ?_ ?_ _ _) fun _ => Coro.Frames.pure _
      · exact fun op hop => Or.inr hop
      · exact Or.inl rfl
    · exact Coro.Frames.pure _
  · exact Coro.Frames.pure _

theorem ends_notifySubscribers (aoid : ℤ) (itemName : String) (orders : Fingerprinted) (w : World) :
    Ends (notifySubscribers env aoid itemName orders) w
      (if env.dbFault w.tick = none then
        alertsEnd env aoid itemName orders (env.rowOrder w.tick (subscribers w.db aoid)) (w.tick + 1)
      else none) := by
  unfold notifySubscribers
  cases hfault : env.dbFault w.tick with
  | some e =>
    have hrun : (subscribersForAoid env aoid [.notified aoid orders]).run w = (.error e, w.next) := by
      simp [subscribersForAoid, query, statement, hfault]
    rw [Ends, Coro.run_bind_error hrun]
    simp
  | none =>
    have hrun : (subscribersForAoid env aoid [.notified aoid orders]).run w =
        (.ok (env.rowOrder w.tick (subscribers w.db aoid)),
          { w.next with log := w.log ++ [.notified aoid orders] }) := run_query_ok hfault rfl
    rw [if_pos rfl, Ends, Coro.run_bind_ok hrun]
    exact ends_notifyEach env aoid itemName orders _ _

theorem ends_alertNew (watch : MarketWatch) (book : Orders) (seen : List String) (w : World) :
    Ends (alertNew env watch.aoid book watch.name seen) w
      (passEnd env watch book seen (subscribers w.db watch.aoid) w.tick) := by
  unfold passEnd
  by_cases hskip : seen = [] ∨ newFingerprints env book seen = []
  · rw [alertNew_of_skip hskip, if_pos hskip]
    exact Ends.pure () w
  · obtain ⟨hseen, hnew⟩ := not_or.mp hskip
    rw [alertNew_of_new hseen hnew, if_neg hskip]
    exact (ends_notifySubscribers watch.aoid watch.name _ w).map fun _ => ()

theorem forM_text_ok {texts : List String} :
    texts.forM (text env) = .ok () ↔ ∀ s ∈ texts, text env s = .ok () := by
  induction texts with
  | nil => simp [pure, Except.pure]
  | cons s rest ih =>
    have hcons : (s :: rest).forM (text env) = (text env s >>= fun _ => rest.forM (text env)) := rfl
    rw [hcons, except_bind_eq_ok, List.forall_mem_cons, ← ih]
    exact ⟨fun ⟨_, hs, hrest⟩ => ⟨hs, hrest⟩, fun ⟨hs, hrest⟩ => ⟨(), hs, hrest⟩⟩

theorem run_replaceSeen {aoid : ℤ} {book : Orders} {w : World} (h : StoresSeen env book w.tick) :
    (replaceSeenFingerprints env aoid (book.fingerprints env.py)).run w =
      (.ok (), { db := w.db.replaceSeen aoid (book.fingerprints env.py), tick := w.tick + 1,
                 log := w.log ++ [.replaced aoid (book.fingerprints env.py)] }) := by
  apply run_statement_ok h.1
  rw [forM_text_ok.mpr h.2]
  rfl

theorem run_replaceSeen_error {aoid : ℤ} {book : Orders} {w : World}
    (h : ¬ StoresSeen env book w.tick) :
    ∃ e, (replaceSeenFingerprints env aoid (book.fingerprints env.py)).run w = (.error e, w.next) := by
  unfold replaceSeenFingerprints
  rcases run_statement_cases w with hfail | ⟨hdb, a, db, note, hf, _⟩
  · exact hfail
  · obtain ⟨_, htexts, _⟩ := except_bind_eq_ok.mp hf
    exact absurd ⟨hdb, forM_text_ok.mp htexts⟩ h

theorem ends_replaceSeen (aoid : ℤ) (book : Orders) (w : World) :
    Ends (replaceSeenFingerprints env aoid (book.fingerprints env.py)) w
      (if StoresSeen env book w.tick then some (w.tick + 1) else none) := by
  by_cases h : StoresSeen env book w.tick
  · rw [if_pos h, Ends, run_replaceSeen h]
  · obtain ⟨e, hrun⟩ := @run_replaceSeen_error env aoid book w h
    rw [if_neg h, Ends, hrun]

/-- The tick at which last_polled is updated, if all calls before go through. -/
def detectEnd (env : Env) (watch : MarketWatch) (book : Orders) (db : Db) (t : ℕ) : Option ℕ :=
  if env.dbFault t = none then
    (passEnd env watch book (seenFingerprints db watch.aoid) (subscribers db watch.aoid)
      (t + 1)).bind fun t' => if StoresSeen env book t' then some (t' + 1) else none
  else none

theorem completes_iff {watch : MarketWatch} {book : Orders} {db : Db} {t : ℕ} :
    Completes env watch book db t ↔
      ∃ t', detectEnd env watch book db t = some t' ∧ env.dbFault t' = none := by
  unfold Completes detectEnd
  by_cases hdb : env.dbFault t = none
  · rw [if_pos hdb]
    simp only [hdb, true_and, Option.bind_eq_some_iff]
    constructor
    · rintro ⟨t', hpass, hseen, hupdate⟩
      exact ⟨t' + 1, ⟨t', hpass, if_pos hseen⟩, hupdate⟩
    · rintro ⟨t', ⟨t₁, hpass, hseen⟩, hupdate⟩
      split at hseen
      · next hs =>
        cases hseen
        exact ⟨t₁, hpass, hs, hupdate⟩
      · cases hseen
  · rw [if_neg hdb]
    simp [hdb]

theorem run_getSeen {aoid : ℤ} {w : World} (h : env.dbFault w.tick = none) :
    (getSeenFingerprints env aoid).run w = (.ok (seenFingerprints w.db aoid), w.next) := by
  simp [getSeenFingerprints, query, statement, h, Except.map, World.next]

/-- The detection ends where detectEnd says, and nowhere if one of its calls fails. -/
theorem ends_detectNewOrders (watch : MarketWatch) (book : Orders) (w : World) :
    Ends (detectNewOrders env watch.aoid book watch.name) w
      (detectEnd env watch book w.db w.tick) := by
  rw [detectNewOrders_eq, detectEnd]
  cases hdb : env.dbFault w.tick with
  | some e =>
    have hrun : (getSeenFingerprints env watch.aoid).run w = (.error e, w.next) := by
      simp [getSeenFingerprints, query, statement, hdb]
    rw [Ends, Coro.run_bind_error hrun]
    simp
  | none =>
    rw [if_pos rfl, Ends, Coro.run_bind_ok (run_getSeen hdb)]
    exact Ends.bind (ends_alertNew watch book _ w.next) fun _ w' _ => ends_replaceSeen _ book w'

section Examine
variable {now : ℤ} {began : Option ℕ} {watch : MarketWatch} {w : World}

theorem run_examine_error {e : PyErr} (h : env.getOrders w.tick watch.aoid = .error e) :
    (examine env now began watch).run w = (.error e, w.next) := by
  apply Coro.run_bind_error
  rw [run_getOrders, h]

theorem run_examine_none (h : env.getOrders w.tick watch.aoid = .ok none) :
    (examine env now began watch).run w = (.ok false, w.next) := by
  have hrun : (getOrders env watch.aoid).run w = (.ok none, w.next) := by rw [run_getOrders, h]
  rw [examine, Coro.run_bind_ok hrun]
  rfl

theorem run_examine_book {book : Orders} (h : env.getOrders w.tick watch.aoid = .ok (some book)) :
    (examine env now began watch).run w = (do
        snapshot env now began watch.aoid book watch.ql
        detectNewOrders env watch.aoid book watch.name
        return true : M Bool).run { w.next with log := w.log ++ [.fetched watch.aoid book] } := by
  have hrun : (getOrders env watch.aoid).run w =
      (.ok (some book), { w.next with log := w.log ++ [.fetched watch.aoid book] }) := by
    rw [run_getOrders, h]
  rw [examine, Coro.run_bind_ok hrun]

/-- A book whose snapshot fails ends the turn before any alert. -/
theorem run_examine_refused {book : Orders} (h : env.getOrders w.tick watch.aoid = .ok (some book))
    (hs : ¬ StoresSnapshot env watch book w.db (w.tick + 1)) :
    ∃ e w', (examine env now began watch).run w = (.error e, w') ∧ w'.db = w.db ∧
      w'.log = w.log ++ [.fetched watch.aoid book] := by
  rw [run_examine_book h]
  obtain ⟨e, w', hrun, hdb, hlog⟩ := @run_snapshot_error env now began watch book
    { w.next with log := w.log ++ [.fetched watch.aoid book] } hs
  exact ⟨e, w', Coro.run_bind_error hrun _, hdb, hlog⟩

/-- The other tables the turn reads are as before the snapshot. -/
structure AfterSnapshot (watch : MarketWatch) (db db' : Db) : Prop where
  watch : db'.watch = db.watch
  subs : db'.subscriptions = db.subscriptions
  seen : ∀ aoid, seenFingerprints db' aoid = seenFingerprints db aoid
  alerts : db'.pendingAlerts = db.pendingAlerts

/-- Once the snapshot is stored the turn goes on with the detection, which finds its tables
as before. -/
theorem run_examine_stored {book : Orders} (h : env.getOrders w.tick watch.aoid = .ok (some book))
    (hs : StoresSnapshot env watch book w.db (w.tick + 1)) :
    ∃ db, AfterSnapshot watch w.db db ∧ (examine env now began watch).run w = (do
        detectNewOrders env watch.aoid book watch.name
        return true : M Bool).run
          { db := db, tick := w.tick + 2,
            log := w.log ++ [.fetched watch.aoid book, .snapshot watch.aoid now] } := by
  rw [run_examine_book h]
  obtain ⟨db, hrun⟩ := @run_snapshot env now began watch book
    { w.next with log := w.log ++ [.fetched watch.aoid book] } hs
  have hkeeps : Keeps (fun op => op = .insertHistory watch.aoid now)
      (snapshot env now began watch.aoid book watch.ql) := by
    apply keeps_snapshot
    rfl
  have hsame : ∀ {β : Type} (f : Db → β), (∀ op db db' note, op = .insertHistory watch.aoid now →
      Effect op db db' note → f db' = f db) → f db = f w.db := by
    intro β f hf
    have heq := hkeeps.run_eq hf { w.next with log := w.log ++ [.fetched watch.aoid book] }
    rwa [hrun] at heq
  refine ⟨db, ⟨?_, ?_, fun aoid => ?_, ?_⟩, ?_⟩
  · exact hsame (fun d => d.watch) fun op d d' note hop heff => heff.watch_eq (by simp [hop, TouchesWatch])
  · exact hsame (fun d => d.subscriptions) fun op d d' note hop heff =>
      heff.subscriptions_eq (by simp [hop, TouchesSubscriptions])
  · exact hsame (fun d => seenFingerprints d aoid) fun op d d' note hop heff =>
      heff.seen_eq (by simp [hop])
  · exact hsame (fun d => d.pendingAlerts) fun op d d' note hop heff =>
      heff.alerts_eq (by simp [hop, TouchesAlerts])
  · rw [Coro.run_bind_ok hrun]
    simp [World.next]

theorem ends_examine_stored {book : Orders} (h : env.getOrders w.tick watch.aoid = .ok (some book))
    (hs : StoresSnapshot env watch book w.db (w.tick + 1)) :
    Ends (examine env now began watch) w (detectEnd env watch book w.db (w.tick + 2)) := by
  obtain ⟨db, hsame, hrun⟩ := @run_examine_stored env now began watch w book h hs
  have hdetect : detectEnd env watch book db (w.tick + 2) =
      detectEnd env watch book w.db (w.tick + 2) := by
    simp only [detectEnd, subscribers, hsame.subs, hsame.seen]
  rw [Ends, hrun, ← hdetect]
  exact (ends_detectNewOrders watch book _).map fun _ => true

theorem run_updateLastPolled (aoid : ℤ) :
    (updateLastPolled env aoid now).run w =
      match env.dbFault w.tick with
      | some e => (.error e, w.next)
      | none => (.ok (), { db := w.db.updateWatch (fun r => r.aoid == aoid)
                              (fun r => { r with lastPolled := some now }) fun _ => rfl
                           tick := w.tick + 1, log := w.log }) := by
  unfold updateLastPolled statement
  rw [Coro.run_act]
  dsimp only
  cases env.dbFault w.tick with
  | some e => rfl
  | none => simp

/-- A turn returns exactly when its examination does and the update goes through. -/
theorem pollItem_ok_of_ends {t : Option ℕ} (h : Ends (examine env now began watch) w t) :
    ((pollItem env now began watch).run w).1.isOk = true ↔ ∃ t', t = some t' ∧ env.dbFault t' = none := by
  have hupdate : ∀ (b : Bool) (w' : World), Ends (do
      updateLastPolled env watch.aoid now
      return b : M Bool) w' (if env.dbFault w'.tick = none then some (w'.tick + 1) else none) := by
    intro b w'
    refine Ends.map ?_ fun _ => b
    rw [Ends, run_updateLastPolled]
    cases hfault : env.dbFault w'.tick with
    | some e => simp
    | none => simp
  have hends := Ends.bind (g := fun t => if env.dbFault t = none then some (t + 1) else none) h
    fun b w' _ => hupdate b w'
  rw [pollItem_eq, hends.isOk]
  cases t with
  | none => simp
  | some t' => simp

/-- The turn returns exactly when it is safe. -/
theorem pollItem_ok_iff : ((pollItem env now began watch).run w).1.isOk = true ↔ ItemSafe env watch w := by
  unfold ItemSafe
  rcases horders : env.getOrders w.tick watch.aoid with e | _ | book
  · have hends : Ends (examine env now began watch) w none := by
      rw [Ends, run_examine_error horders]
    rw [pollItem_ok_of_ends hends]
    simp
  · have hends : Ends (examine env now began watch) w (some (w.tick + 1)) := by
      rw [Ends, run_examine_none horders]
      rfl
    rw [pollItem_ok_of_ends hends]
    simp
  · by_cases hs : StoresSnapshot env watch book w.db (w.tick + 1)
    · rw [pollItem_ok_of_ends (ends_examine_stored horders hs)]
      simp only [hs, true_and, completes_iff]
    · have hends : Ends (examine env now began watch) w none := by
        obtain ⟨e, w', hrun, _⟩ := @run_examine_refused env now began watch w book horders hs
        rw [Ends, hrun]
      rw [pollItem_ok_of_ends hends]
      simp [hs]

end Examine

end AoMarket.PollTurn
