import AoMarket.PollTurn
import AoMarket.StorableText

/-!
The alerts of one call of notify_subscribers. Every subscription of the item is
compared with every order; the subscriptions that are left with an order get one alert
each, and a tell or a row of the queue carries it. The loop is followed row by row, so
whether a player is online may change between two rows.
-/

namespace AoMarket.AlertFanOut

open Coroutine Relational Models Database OrderBook PyNumber PyText Environment MarketRepo
open Polling PollTurn Rendering StorableText BookNumbers

/-- A `NewOrder` with the types it is declared with. -/
structure IntOrder where
  side : Side
  price : ℤ
  minQl : ℤ
  maxQl : ℤ

def IntOrder.newOrder (o : IntOrder) : NewOrder :=
  ⟨o.side, .num (.int o.price), .num (.int o.minQl), .num (.int o.maxQl)⟩

abbrev TypedOrders := List (String × IntOrder)

def untyped (orders : TypedOrders) : Fingerprinted := orders.map fun o => (o.1, o.2.newOrder)

def AtLeast (bound : Option ℤ) (n : ℤ) : Prop := ∀ m ∈ bound, m ≤ n

def AtMost (bound : Option ℤ) (n : ℤ) : Prop := ∀ m ∈ bound, n ≤ m

instance (bound : Option ℤ) (n : ℤ) : Decidable (AtLeast bound n) := by
  unfold AtLeast
  infer_instance

instance (bound : Option ℤ) (n : ℤ) : Decidable (AtMost bound n) := by
  unfold AtMost
  infer_instance

/-- The price and the QL range of the order lie within the subscription's bounds. -/
def Inside (sub : MarketSubscription) (o : IntOrder) : Prop :=
  AtLeast sub.minPrice o.price ∧ AtMost sub.maxPrice o.price ∧ AtLeast sub.minQl o.minQl ∧
    AtMost sub.maxQl o.maxQl

instance (sub : MarketSubscription) (o : IntOrder) : Decidable (Inside sub o) := by
  unfold Inside
  infer_instance

def within (sub : MarketSubscription) (orders : TypedOrders) : TypedOrders :=
  orders.filter fun o => decide (Inside sub o.2)

/-- format_credits renders the price, and the QLs are short enough to be printed. -/
structure Shown (py : Runtime) (o : IntOrder) : Prop where
  price : ∃ text, credits py (.num (.int o.price)) = .ok text
  minQl : o.minQl.natAbs < 10 ^ maxStrDigits
  maxQl : o.maxQl.natAbs < 10 ^ maxStrDigits

/-- The alert has one line for each of the orders, in order, and their number. -/
def Lists (py : Runtime) (itemName : String) (aoid : ℤ) (orders : TypedOrders) (message : String) :
    Prop :=
  ∃ rows, List.Forall₂ (fun o row => orderLine py o.2.newOrder = .ok row) orders rows ∧
    message = lines ([s!"{orders.length} new order(s) posted for {itemName}:", ""] ++ rows ++
      ["", s!"[market {aoid}]"])

/-- A sink that does not fail and can send if it knows who is online, a server that takes
every text without a NUL, and floats that print without one. -/
structure Delivers (env : Env) : Prop where
  online : ∀ ask ∈ env.chat.isOnline, ∀ t player, (ask t player).isOk = true
  tells : ∀ send ∈ env.chat.sendTell, ∀ t player message, (send t player message).isOk = true
  both : env.chat.isOnline.isSome = true → env.chat.sendTell.isSome = true
  up : ∀ t, env.dbFault t = none
  texts : ∀ s, Clean s → env.storable s = true
  prints : PrintsClean env.py

section Filter
variable {py : Runtime} {sub : MarketSubscription} {orders : TypedOrders}

theorem int_lt (m n : ℤ) : PyVal.lt py (.num (.int m)) (.num (.int n)) = some (decide (m < n)) := by
  have hcast : decide ((m : ℚ) < (n : ℚ)) = decide (m < n) := by
    rw [decide_eq_decide]
    exact Int.cast_lt
  exact congrArg some hcast

theorem below_int (n : ℤ) (bound : Option ℤ) :
    below py (.num (.int n)) bound = some (decide ¬ AtLeast bound n) := by
  unfold AtLeast
  cases bound with
  | none => simp [below]
  | some m =>
    rw [below, int_lt]
    simp

theorem above_int (n : ℤ) (bound : Option ℤ) :
    above py (.num (.int n)) bound = some (decide ¬ AtMost bound n) := by
  unfold AtMost
  cases bound with
  | none => simp [above]
  | some m =>
    rw [above, int_lt]
    simp

/-- The first bound that is broken decides. -/
theorem orderMatchesFilter_eq (o : IntOrder) :
    orderMatchesFilter py o.newOrder sub.minPrice sub.maxPrice sub.minQl sub.maxQl =
      some (decide (Inside sub o)) := by
  unfold orderMatchesFilter IntOrder.newOrder Inside
  simp only [below_int, above_int, Option.bind_eq_bind, Option.bind_some]
  by_cases hminPrice : AtLeast sub.minPrice o.price
  · by_cases hmaxPrice : AtMost sub.maxPrice o.price
    · by_cases hminQl : AtLeast sub.minQl o.minQl
      · by_cases hmaxQl : AtMost sub.maxQl o.maxQl
        · simp [hminPrice, hmaxPrice, hminQl, hmaxQl]
        · simp [hminPrice, hmaxPrice, hminQl, hmaxQl]
      · simp [hminPrice, hmaxPrice, hminQl]
    · simp [hminPrice, hmaxPrice]
  · simp [hminPrice]

theorem within_cons_of_inside {o : String × IntOrder} (h : Inside sub o.2) :
    within sub (o :: orders) = o :: within sub orders :=
  List.filter_cons_of_pos (by simpa using h)

theorem within_cons_of_outside {o : String × IntOrder} (h : ¬ Inside sub o.2) :
    within sub (o :: orders) = within sub orders :=
  List.filter_cons_of_neg (by simpa using h)

/-- Filtering the untyped orders is filtering the typed ones. -/
theorem matching_eq : matching py (untyped orders) sub = some (untyped (within sub orders)) := by
  unfold matching
  induction orders with
  | nil => rfl
  | cons o rest ih =>
    show filterChecked _ ((o.1, o.2.newOrder) :: untyped rest) = _
    rw [filterChecked, ih, orderMatchesFilter_eq]
    by_cases hin : Inside sub o.2
    · rw [within_cons_of_inside hin, decide_eq_true hin]
      rfl
    · rw [within_cons_of_outside hin, decide_eq_false hin]
      rfl

theorem orderLine_ok {o : IntOrder} (h : Shown py o) :
    ∃ row, orderLine py o.newOrder = .ok row := by
  obtain ⟨text, htext⟩ := h.price
  unfold orderLine IntOrder.newOrder
  rw [htext]
  exact ⟨_, rfl⟩

theorem rows_ok (h : ∀ o ∈ orders, Shown py o.2) :
    ∃ rows, (untyped orders).mapM (fun o => orderLine py o.2) = .ok rows ∧
      List.Forall₂ (fun o row => orderLine py o.2.newOrder = .ok row) orders rows := by
  induction orders with
  | nil => exact ⟨[], rfl, List.Forall₂.nil⟩
  | cons o rest ih =>
    obtain ⟨row, hrow⟩ := orderLine_ok (h o List.mem_cons_self)
    obtain ⟨rows, hrows, hall⟩ := ih fun o' ho' => h o' (List.mem_cons_of_mem o ho')
    refine ⟨row :: rows, ?_, List.Forall₂.cons hrow hall⟩
    show List.mapM _ ((o.1, o.2.newOrder) :: untyped rest) = _
    rw [List.mapM_cons]
    dsimp only
    rw [hrow, hrows]
    rfl

theorem formatAlert_ok {itemName : String} {aoid : ℤ} (h : ∀ o ∈ orders, Shown py o.2) :
    ∃ message, formatAlert py itemName aoid (untyped orders) = .ok message ∧
      Lists py itemName aoid orders message := by
  obtain ⟨rows, hrows, hall⟩ := rows_ok h
  have hlength : (untyped orders).length = orders.length := List.length_map _
  unfold formatAlert
  rw [hrows, hlength, ok_bind]
  exact ⟨_, rfl, rows, hall, rfl⟩

/-- A line that cannot be written ends the alert. -/
theorem alertFor_error {itemName : String} {aoid : ℤ} {o : String × IntOrder} {rest : TypedOrders}
    {e : PyErr} (h : within sub orders = o :: rest)
    (hline : orderLine py o.2.newOrder = .error e) :
    alertFor py aoid itemName (untyped orders) sub = .error e := by
  have hrows : (untyped (o :: rest)).mapM (fun o => orderLine py o.2) = .error e := by
    show List.mapM _ ((o.1, o.2.newOrder) :: untyped rest) = _
    rw [List.mapM_cons]
    dsimp only
    rw [hline]
    rfl
  have hmessage : formatAlert py itemName aoid (untyped (o :: rest)) = .error e := by
    unfold formatAlert
    rw [hrows]
    rfl
  unfold alertFor
  rw [matching_eq, h]
  show (formatAlert py itemName aoid (untyped (o :: rest)) >>= _) = _
  rw [hmessage]
  rfl

theorem intFields_untyped : ∀ o ∈ untyped orders, IntFields o.2 := by
  intro o ho
  obtain ⟨typed, _, rfl⟩ := List.mem_map.mp ho
  exact ⟨typed.2.price, typed.2.minQl, typed.2.maxQl, rfl, rfl, rfl⟩

/-- No order inside the filter: no alert. -/
theorem alertFor_none {itemName : String} {aoid : ℤ} (h : within sub orders = []) :
    alertFor py aoid itemName (untyped orders) sub = .ok none := by
  unfold alertFor
  rw [matching_eq, h]
  rfl

/-- A subscriber with a new order inside the filter has an alert that lists these orders, one
line each. -/
theorem alertFor_some (hprints : PrintsClean py) {itemName : String} (hname : Clean itemName)
    {aoid : ℤ} (hshown : ∀ o ∈ orders, Shown py o.2) (h : within sub orders ≠ []) :
    ∃ message, alertFor py aoid itemName (untyped orders) sub =
        .ok (some (untyped (within sub orders), message)) ∧
      Lists py itemName aoid (within sub orders) message ∧ Clean message := by
  have hinside : ∀ o ∈ within sub orders, Shown py o.2 :=
    fun o ho => hshown o (List.mem_of_mem_filter ho)
  obtain ⟨message, hmessage, hlists⟩ := @formatAlert_ok py _ itemName aoid hinside
  refine ⟨message, ?_, hlists, clean_formatAlert hprints hname intFields_untyped hmessage⟩
  have hnonempty : (untyped (within sub orders)).isEmpty = false := by
    cases hlist : within sub orders with
    | nil => exact absurd hlist h
    | cons o rest => rfl
  unfold alertFor
  rw [matching_eq]
  show (if (untyped (within sub orders)).isEmpty = true then _ else _) = _
  rw [hnonempty, hmessage]
  rfl

end Filter

/-! Deliveries -/

structure Alert where
  sub : MarketSubscription
  message : String
  online : Bool

def tells (log : List Event) : List (String × String) :=
  log.filterMap fun
    | .tell player message => some (player, message)
    | _ => none

def Alert.sent (alerts : List Alert) : List (String × String) :=
  (alerts.filter Alert.online).map fun a => (a.sub.player, a.message)

def Alert.kept (alerts : List Alert) : List (String × String) :=
  (alerts.filter fun a => !a.online).map fun a => (a.sub.player, a.message)

/-- Between two worlds the alerts that were sent are the only tells, the others are the
only rows added to the queue, and nothing else of the database changed. -/
structure Carried (env : Env) (aoid : ℤ) (alerts : List Alert) (w w' : World) : Prop where
  later : w.tick ≤ w'.tick
  asks : ∀ a ∈ alerts, ∃ t, w.tick ≤ t ∧ t ≤ w'.tick ∧ (asked env a.sub.player t).1 = .ok a.online
  tells : tells w'.log = tells w.log ++ Alert.sent alerts
  queue : ∃ rows : List MarketPendingAlert,
    rows.map (fun r => (r.player, r.message)) = Alert.kept alerts ∧ (∀ r ∈ rows, r.aoid = aoid) ∧
      w'.db.toTables = { w.db.toTables with
        pendingAlerts := w.db.pendingAlerts ++ rows
        nextAlertId := w.db.nextAlertId + rows.length }

section Delivering
variable {env : Env} {aoid : ℤ}

theorem tells_append (log note : List Event) : tells (log ++ note) = tells log ++ tells note :=
  List.filterMap_append

theorem Carried.refl (w : World) : Carried env aoid [] w w where
  later := le_refl _
  asks := fun _ ha => absurd ha List.not_mem_nil
  tells := by simp [Alert.sent]
  queue := ⟨[], rfl, fun _ hr => absurd hr List.not_mem_nil, by simp⟩

/-- Sending and queueing one after the other. -/
theorem Carried.append {first others : List Alert} {w w₁ w' : World}
    (h : Carried env aoid first w w₁) (h' : Carried env aoid others w₁ w') :
    Carried env aoid (first ++ others) w w' := by
  obtain ⟨rows, hrows, haoid, hdb⟩ := h.queue
  obtain ⟨rows', hrows', haoid', hdb'⟩ := h'.queue
  have hlater := h.later
  have hlater' := h'.later
  refine ⟨hlater.trans hlater', ?_, ?_, rows ++ rows', ?_, ?_, ?_⟩
  · intro a ha
    rcases List.mem_append.mp ha with ha | ha
    · obtain ⟨t, hlow, hhigh, hasked⟩ := h.asks a ha
      exact ⟨t, hlow, hhigh.trans hlater', hasked⟩
    · obtain ⟨t, hlow, hhigh, hasked⟩ := h'.asks a ha
      exact ⟨t, hlater.trans hlow, hhigh, hasked⟩
  · rw [h'.tells, h.tells]
    simp [Alert.sent, List.append_assoc]
  · rw [List.map_append, hrows, hrows']
    simp [Alert.kept]
  · intro r hr
    rcases List.mem_append.mp hr with hr | hr
    · exact haoid r hr
    · exact haoid' r hr
  · rw [hdb', hdb]
    simp [Nat.add_assoc]

/-- A sink that does not fail says whether the player is online, and the alert is told
or queued accordingly. -/
theorem delivery_eq (h : Delivers env) (player : String) {message : String}
    (hmessage : Clean message) (t : ℕ) :
    ∃ online t', t ≤ t' ∧ (asked env player t).1 = .ok online ∧
      delivery env player message t = if online then .told t' else .queued t' := by
  have htext : text env message = .ok () := if_pos (h.texts message hmessage)
  unfold delivery asked
  cases hask : env.chat.isOnline with
  | none =>
    refine ⟨false, t, le_refl t, rfl, ?_⟩
    dsimp only
    rw [h.up, htext]
    rfl
  | some ask =>
    obtain ⟨online, honline⟩ := isOk_iff.mp (h.online ask hask t player)
    refine ⟨online, t + 1, by omega, honline, ?_⟩
    have hsink : env.chat.sendTell.isSome = true := h.both (by rw [hask]; rfl)
    obtain ⟨send, hsend⟩ := Option.isSome_iff_exists.mp hsink
    dsimp only
    rw [honline]
    cases online with
    | true =>
      obtain ⟨u, hu⟩ := isOk_iff.mp (h.tells send hsend (t + 1) player message)
      dsimp only
      rw [hsend]
      dsimp only
      rw [hu]
      rfl
    | false =>
      dsimp only
      rw [h.up, htext]
      rfl

/-- The step of the loop for a subscription that gets an alert. -/
theorem alertSubscriber_carries (h : Delivers env) (sub : MarketSubscription) {message : String}
    (hmessage : Clean message) (orders : Fingerprinted) (w : World) :
    ∃ online w', (alertSubscriber env aoid sub.player message orders).run w = (.ok (), w') ∧
      Carried env aoid [⟨sub, message, online⟩] w w' := by
  obtain ⟨online, t, hlater, hasked, hdelivery⟩ := delivery_eq h sub.player hmessage w.tick
  have hrun := @run_alertSubscriber env aoid sub.player message orders w
  rw [hdelivery] at hrun
  have hasks : ∀ a ∈ [(⟨sub, message, online⟩ : Alert)], ∃ t', w.tick ≤ t' ∧ t' ≤ t + 1 ∧
      (asked env a.sub.player t').1 = .ok a.online := by
    intro a ha
    obtain rfl := List.mem_singleton.mp ha
    exact ⟨w.tick, le_refl _, by omega, hasked⟩
  cases online with
  | true =>
    refine ⟨true, _, hrun, ?_⟩
    refine ⟨Nat.le_succ_of_le hlater, hasks, tells_append _ _, [], rfl, ?_, ?_⟩
    · exact fun _ hr => absurd hr List.not_mem_nil
    · simp [Delivery.db]
  | false =>
    refine ⟨false, _, hrun, ?_⟩
    refine ⟨Nat.le_succ_of_le hlater, hasks, tells_append _ _,
      [⟨w.db.nextAlertId, sub.player, aoid, message, env.clock t⟩], rfl, ?_, rfl⟩
    intro r hr
    rw [List.mem_singleton.mp hr]

/-- Every subscription with an order inside its filter has one alert, which lists these
orders; the alerts are in the order of the subscriptions. -/
structure Alerts (py : Runtime) (itemName : String) (aoid : ℤ) (orders : TypedOrders)
    (subs : List MarketSubscription) (alerts : List Alert) : Prop where
  subs : alerts.map Alert.sub = subs.filter fun sub => decide (∃ o ∈ orders, Inside sub o.2)
  lists : ∀ a ∈ alerts, Lists py itemName aoid (within a.sub orders) a.message

theorem within_eq_nil {sub : MarketSubscription} {orders : TypedOrders} :
    within sub orders = [] ↔ ¬ ∃ o ∈ orders, Inside sub o.2 := by
  simp [within, List.filter_eq_nil_iff]

/-- The loop over the rows. -/
theorem notifyEach_carries (h : Delivers env) {itemName : String} (hname : Clean itemName)
    {orders : TypedOrders} (hshown : ∀ o ∈ orders, Shown env.py o.2)
    (subs : List MarketSubscription) (w : World) :
    ∃ alerts w', (notifyEach env aoid itemName (untyped orders) subs).run w =
        (.ok alerts.length, w') ∧
      Alerts env.py itemName aoid orders subs alerts ∧ Carried env aoid alerts w w' := by
  induction subs generalizing w with
  | nil => exact ⟨[], w, rfl, ⟨rfl, fun _ ha => absurd ha List.not_mem_nil⟩, Carried.refl w⟩
  | cons sub rest ih =>
    rw [notifyEach_cons]
    by_cases hinside : ∃ o ∈ orders, Inside sub o.2
    · have hsome : within sub orders ≠ [] := fun hnil => within_eq_nil.mp hnil hinside
      obtain ⟨message, halert, hlists, hclean⟩ :=
        @alertFor_some env.py sub orders h.prints itemName hname aoid hshown hsome
      obtain ⟨online, w₁, hrun, hfirst⟩ := @alertSubscriber_carries env aoid h sub _ hclean
        (untyped (within sub orders)) w
      obtain ⟨alerts, w', hrest, hshape, hothers⟩ := ih w₁
      refine ⟨⟨sub, message, online⟩ :: alerts, w', ?_, ⟨?_, ?_⟩, hfirst.append hothers⟩
      · rw [halert]
        show (alertSubscriber env aoid sub.player message (untyped (within sub orders)) >>= fun _ =>
          notifyEach env aoid itemName (untyped orders) rest >>= fun notified =>
            pure (notified + 1)).run w = _
        rw [Coro.run_bind_ok hrun, Coro.run_bind_ok hrest]
        rfl
      · rw [List.map_cons, hshape.subs, List.filter_cons_of_pos (by simpa using hinside)]
      · intro a ha
        rcases List.mem_cons.mp ha with rfl | ha
        · exact hlists
        · exact hshape.lists a ha
    · have hnone := @alertFor_none env.py sub orders itemName aoid (within_eq_nil.mpr hinside)
      obtain ⟨alerts, w', hrest, hshape, hothers⟩ := ih w
      refine ⟨alerts, w', ?_, ⟨?_, hshape.lists⟩, hothers⟩
      · rw [hnone]
        exact hrest
      · rw [hshape.subs, List.filter_cons_of_neg (by simpa using hinside)]

/-- Each subscription with an order inside its filter gets exactly one alert, which lists
exactly these orders, as a tell or in the queue. -/
theorem notifySubscribers_fans_out (h : Delivers env) {itemName : String}
    (hname : Clean itemName) {orders : TypedOrders} (hshown : ∀ o ∈ orders, Shown env.py o.2)
    (w : World) :
    ∃ alerts w', (notifySubscribers env aoid itemName (untyped orders)).run w =
        (.ok alerts.length, w') ∧
      Alerts env.py itemName aoid orders (env.rowOrder w.tick (subscribers w.db aoid)) alerts ∧
      Carried env aoid alerts w w' := by
  have hrows : (subscribersForAoid env aoid [.notified aoid (untyped orders)]).run w =
      (.ok (env.rowOrder w.tick (subscribers w.db aoid)),
        { w.next with log := w.log ++ [.notified aoid (untyped orders)] }) :=
    run_query_ok (h.up w.tick) rfl
  have hread : Carried env aoid [] w
      { w.next with log := w.log ++ [.notified aoid (untyped orders)] } :=
    ⟨Nat.le_succ _, fun _ ha => absurd ha List.not_mem_nil, tells_append _ _,
      [], rfl, fun _ hr => absurd hr List.not_mem_nil, by simp [World.next]⟩
  obtain ⟨alerts, w', hrun, hshape, hcarried⟩ := @notifyEach_carries env aoid h _ hname _ hshown
    (env.rowOrder w.tick (subscribers w.db aoid))
    { w.next with log := w.log ++ [.notified aoid (untyped orders)] }
  refine ⟨alerts, w', ?_, hshape, hread.append hcarried⟩
  unfold notifySubscribers
  rw [Coro.run_bind_ok hrows, hrun]

end Delivering

/-! Two subscribers, one of them online -/

def aliceOnline : Env :=
  { Env.calm with
    chat := { sendTell := some fun _ _ _ => .ok ()
              isOnline := some fun _ player => .ok (player == "alice") } }

theorem aliceOnline_delivers : Delivers aliceOnline where
  online ask hask t player := by
    cases hask
    rfl
  tells send hsend t player message := by
    cases hsend
    rfl
  both _ := rfl
  up _ := rfl
  texts _ _ := rfl
  prints x := by
    show Clean "nan"
    decide

/-- Alice wants to hear of rings for at least five million, Bob of every ring. -/
def ringWatchers : Db where
  toTables :=
    { users := [⟨"alice", false⟩, ⟨"bob", false⟩]
      watch := [⟨1, "Ring", 10, none, 0, none, false⟩]
      subscriptions :=
        [{ player := "alice", aoid := 1, minPrice := some 5000000, createdAt := 0 },
         { player := "bob", aoid := 1, createdAt := 0 }] }
  sound := by constructor <;> simp [Keyed, Refers, MarketSubscription.key]

def ringOrders : TypedOrders :=
  [("a", ⟨.sell, 10000000, 1, 1⟩), ("b", ⟨.sell, 1000, 1, 1⟩)]

theorem ringOrders_shown : ∀ o ∈ ringOrders, Shown aliceOnline.py o.2 := by
  intro o ho
  have hone : (1 : ℤ).natAbs < 10 ^ maxStrDigits := Nat.one_lt_pow (by decide) (by decide)
  simp only [ringOrders, List.mem_cons, List.not_mem_nil, or_false] at ho
  rcases ho with rfl | rfl
  · exact ⟨credits_fits (by norm_num [Fits]), hone, hone⟩
  · exact ⟨credits_fits (by norm_num [Fits]), hone, hone⟩

theorem rings_fan_out :
    ∃ alerts w', (notifySubscribers aliceOnline 1 "Ring" (untyped ringOrders)).run
        { db := ringWatchers } = (.ok alerts.length, w') ∧
      Alerts aliceOnline.py "Ring" 1 ringOrders (subscribers ringWatchers 1) alerts ∧
      Carried aliceOnline 1 alerts { db := ringWatchers } w' :=
  notifySubscribers_fans_out aliceOnline_delivers (by decide) ringOrders_shown _

theorem credits_overflow (py : Runtime) :
    credits py (.num (.int (10 ^ 320))) = .error .overflow := by
  have hlarge : (1000000000 : ℚ) ≤ |((10 ^ 320 : ℤ) : ℚ)| := by decide +kernel
  have hdouble : double (|((10 ^ 320 : ℤ) : ℚ)| / 1000000000) = none := by decide +kernel
  simp only [credits, PyVal.num?, Parsing.formatCredits, PyNum.value, Parsing.finite]
  rw [if_pos hlarge, hdouble]
  rfl

/-- An order for 10^320 credits is inside both filters, and nobody is alerted. -/
theorem ring_too_dear :
    Delivers aliceOnline ∧ Clean "Ring" ∧
      (∀ sub ∈ subscribers ringWatchers 1, Inside sub ⟨.sell, 10 ^ 320, 1, 1⟩) ∧
      (notifySubscribers aliceOnline 1 "Ring" (untyped [("a", ⟨.sell, 10 ^ 320, 1, 1⟩)])).run
          { db := ringWatchers } =
        (.error .overflow,
          { db := ringWatchers, tick := 1,
            log := [.notified 1 (untyped [("a", ⟨.sell, 10 ^ 320, 1, 1⟩)])] }) := by
  refine ⟨aliceOnline_delivers, by decide, by decide +kernel, ?_⟩
  have hrows : (subscribersForAoid aliceOnline 1
      [.notified 1 (untyped [("a", ⟨.sell, 10 ^ 320, 1, 1⟩)])]).run { db := ringWatchers } =
      (.ok (subscribers ringWatchers 1),
        { db := ringWatchers, tick := 1,
          log := [.notified 1 (untyped [("a", ⟨.sell, 10 ^ 320, 1, 1⟩)])] }) := rfl
  have hsubs : subscribers ringWatchers 1 =
      [{ player := "alice", aoid := 1, minPrice := some 5000000, createdAt := 0 },
       { player := "bob", aoid := 1, createdAt := 0 }] := rfl
  have hline : orderLine aliceOnline.py (IntOrder.newOrder ⟨.sell, 10 ^ 320, 1, 1⟩) =
      .error .overflow := by
    unfold orderLine IntOrder.newOrder
    rw [credits_overflow]
    rfl
  have halert : alertFor aliceOnline.py 1 "Ring" (untyped [("a", ⟨.sell, 10 ^ 320, 1, 1⟩)])
      { player := "alice", aoid := 1, minPrice := some 5000000, createdAt := 0 } =
      .error .overflow :=
    alertFor_error (within_cons_of_inside (by decide +kernel)) hline
  unfold notifySubscribers
  rw [Coro.run_bind_ok hrows, hsubs, notifyEach_cons, halert]
  rfl

end AoMarket.AlertFanOut
