import AoMarket.SettingTypes
import AoMarket.NewOrders
import AoMarket.PollProgress
import AoMarket.AlertFanOut

/-!
How far the settings may go before a poll cycle raises. Any integer is accepted when
a setting is written; the cycle subtracts three of them from the current time and
hands a fourth to the server as a limit.
-/

namespace AoMarket.SettingLimits

open Coroutine Outcomes Relational Models Database OrderBook PyNumber PyText Environment MarketRepo
  SettingsRepo MarketService Rendering Polling Writes ServiceWrites PollTurn PollProgress NewOrders
  SettingTypes BookNumbers StorableText HttpRoutes Fingerprints

variable {env : Env}

/-! Cut-off times -/

/-- `now - timedelta(...)` is within timedelta's range and the years 1 to 9999. -/
def Representable (now duration : ℤ) : Prop :=
  |duration / usPerDay| ≤ 999999999 ∧ minTime ≤ now - duration ∧ now - duration ≤ maxTime

instance (now duration : ℤ) : Decidable (Representable now duration) := by
  unfold Representable
  infer_instance

theorem cutoff_ok {now duration : ℤ} (h : Representable now duration) :
    cutoff now duration = .ok (now - duration) := by
  obtain ⟨hdays, htime⟩ := h
  simp only [cutoff, timedelta, subTime, if_pos hdays, if_pos htime]
  rfl

theorem cutoff_error {now duration : ℤ} (h : ¬ Representable now duration) :
    cutoff now duration = .error .overflow := by
  unfold cutoff timedelta subTime
  by_cases hdays : |duration / usPerDay| ≤ 999999999
  · have htime : ¬ (minTime ≤ now - duration ∧ now - duration ≤ maxTime) :=
      fun htime => h ⟨hdays, htime⟩
    simp only [if_pos hdays, if_neg htime]
  · simp only [if_neg hdays]

theorem yields_cutoff {now duration : ℤ} {w : World} :
    Yields (Coro.ofExcept (cutoff now duration) : M ℤ) w
      (fun _ w' => Representable now duration ∧ w' = w)
      (fun _ _ => ¬ Representable now duration) := by
  by_cases h : Representable now duration
  · rw [cutoff_ok h]
    exact ⟨h, rfl⟩
  · rw [cutoff_error h]
    exact h

/-- The server takes the number as a LIMIT. -/
def Limit (n : ℤ) : Prop := 0 ≤ n ∧ n < 2 ^ 63

theorem window_ok {α : Type} {limit : ℤ} (h : Limit limit) (rows : List α) :
    window limit 0 rows = .ok (rows.take limit.toNat) := by
  have hfits : Fits limit := ⟨by linarith [h.1], h.2⟩
  have hnonneg : ¬ (limit < 0 ∨ (0 : ℤ) < 0) := by
    have hle := h.1
    omega
  unfold window
  rw [int8_ok hfits, int8_ok (by norm_num [Fits]), ok_bind, ok_bind, if_neg hnonneg]
  rfl

theorem window_error {α : Type} {limit : ℤ} (h : ¬ Limit limit) (rows : List α) :
    window limit 0 rows = .error .database := by
  unfold window
  by_cases hfits : Fits limit
  · have hneg : limit < 0 := by
      have hlt := hfits.2
      unfold Limit at h
      omega
    rw [int8_ok hfits, int8_ok (by norm_num [Fits]), ok_bind, ok_bind, if_pos (Or.inl hneg)]
  · rw [int8_error hfits, error_bind]

/-- The four settings of a cycle at that time. -/
structure Limits (now retention expire interval batch : ℤ) : Prop where
  expire : Representable now (expire * usPerDay)
  retention : Representable now (retention * usPerDay)
  interval : Representable now (interval * usPerMinute)
  batch : Limit batch

/-! The due list -/

section Selecting
variable {w : World} {retention expire interval batch : ℤ}

theorem yields_expireStaleWatch (hup : ∀ t, env.dbFault t = none) (stale : ℤ) (w : World) :
    Yields (expireStaleWatch env stale) w (fun _ _ => True) (fun _ _ => False) := by
  refine Yields.bind (Q := fun _ _ => True) ?_ fun aoids w₁ _ => ?_
  · exact yields_query_up (hup _) (fun _ hres => nomatch hres) fun _ _ => trivial
  · split
    · refine Yields.bind (Q := fun _ _ => True) ?_ fun _ _ _ => Yields.pure trivial
      exact yields_statement_up (hup _) (fun _ hres => nomatch hres) fun _ _ _ _ => trivial
    · exact Yields.pure trivial

/-- The part of selectDue after the settings were read. -/
theorem yields_cutoffs (hup : ∀ t, env.dbFault t = none) (now : ℤ) (w : World) :
    Yields (do
      let stale ← Coro.ofExcept (cutoff now (expire * usPerDay))
      let expired ← expireStaleWatch env stale
      let old ← Coro.ofExcept (cutoff now (retention * usPerDay))
      pruneHistory env old
      let polled ← Coro.ofExcept (cutoff now (interval * usPerMinute))
      let due ← dueForPoll env polled batch
      return { now := now, began := due.1, items := due.2, expired := expired : Due } : M Due) w
      (fun _ _ => Limits now retention expire interval batch)
      (fun _ _ => ¬ Limits now retention expire interval batch) := by
  refine Yields.bind (yields_cutoff.mono (fun _ _ => id) fun _ _ h hl => h hl.expire) ?_
  rintro stale w₁ ⟨hexpire, _⟩
  refine Yields.bind ((yields_expireStaleWatch hup stale w₁).mono (fun _ _ => id)
    fun _ _ => False.elim) fun expired w₂ _ => ?_
  refine Yields.bind (yields_cutoff.mono (fun _ _ => id) fun _ _ h hl => h hl.retention) ?_
  rintro old w₃ ⟨hretention, _⟩
  refine Yields.bind (Q := fun _ _ => True) ?_ fun _ w₄ _ => ?_
  · exact yields_statement_up (hup _) (fun _ hres => nomatch hres) fun _ _ _ _ => trivial
  refine Yields.bind (yields_cutoff.mono (fun _ _ => id) fun _ _ h hl => h hl.interval) ?_
  rintro polled w₅ ⟨hinterval, _⟩
  refine Yields.bind (Q := fun _ _ => Limit batch) ?_ fun _ _ hbatch => Yields.pure ?_
  · unfold dueForPoll
    by_cases hbatch : Limit batch
    · apply yields_query_up (hup _)
      · intro e hres
        dsimp only at hres
        rw [window_ok hbatch] at hres
        cases hres
      · exact fun _ _ => hbatch
    · apply yields_query_up (hup _)
      · exact fun _ _ hl => hbatch hl.batch
      · intro due hres
        dsimp only at hres
        rw [window_error hbatch] at hres
        cases hres
  · exact ⟨hexpire, hretention, hinterval, hbatch⟩

/-- With the server up, what is due can be selected exactly within the limits. -/
theorem selectDue_ok_iff (hup : ∀ t, env.dbFault t = none)
    (hretention : readSetting env w.db "HistoryRetentionDays" = .ok (.int retention))
    (hexpire : readSetting env w.db "WatchExpireDays" = .ok (.int expire))
    (hinterval : readSetting env w.db "PollIntervalMinutes" = .ok (.int interval))
    (hbatch : readSetting env w.db "PollBatchSize" = .ok (.int batch)) :
    ((selectDue env).run w).1.isOk = true ↔
      Limits (env.clock w.tick) retention expire interval batch := by
  have hclock : (external (α := ℤ) .clock fun tick => .ok (env.clock tick)).run w =
      (.ok (env.clock w.tick), w.next) := by simp [external, World.next]
  have hread : ∀ (w' : World) {key : String} {n : ℤ}, w'.db = w.db →
      readSetting env w.db key = .ok (.int n) → (getInt env key).run w' = (.ok n, w'.next) := by
    intro w' key n hdb hkey
    rw [← hdb] at hkey
    exact run_getInt_ok (hup _) hkey
  unfold selectDue
  rw [Coro.run_bind_ok hclock, Coro.run_bind_ok (hread w.next rfl hretention),
    Coro.run_bind_ok (hread w.next.next rfl hexpire),
    Coro.run_bind_ok (hread w.next.next.next rfl hinterval),
    Coro.run_bind_ok (hread w.next.next.next.next rfl hbatch)]
  exact (yields_cutoffs hup _ _).isOk_iff

end Selecting

/-! A turn in a healthy environment -/

/-- The database takes every statement and every text without a NUL, the order service
answers with well-typed books at most, and the chat callbacks do not raise. -/
structure Healthy (env : Env) : Prop where
  up : ∀ t, env.dbFault t = none
  texts : ∀ s, Clean s → env.storable s = true
  prints : PrintsClean env.py
  answers : ∀ t aoid, (env.getOrders t aoid).isOk = true
  books : ∀ t aoid book, env.getOrders t aoid = .ok (some book) →
    book.WellTyped ∧ ∀ x ∈ book.orders, Fits (price x) ∧ Clean (trader x)
  online : ∀ ask ∈ env.chat.isOnline, ∀ t player, (ask t player).isOk = true
  tells : ∀ send ∈ env.chat.sendTell, ∀ t player message, (send t player message).isOk = true
  privgroup : ∀ send ∈ env.chat.sendPrivgroup, ∀ t message, (send t message).isOk = true

section Turns
variable {py : Runtime}

/-- Comparing an order with integers with a filter does not raise. -/
theorem orderMatchesFilter_int {o : NewOrder} (h : IntFields o) (sub : MarketSubscription) :
    ∃ b, orderMatchesFilter py o sub.minPrice sub.maxPrice sub.minQl sub.maxQl = some b := by
  obtain ⟨p, l, u, hp, hl, hu⟩ := h
  have horder : o = (⟨o.side, p, l, u⟩ : AlertFanOut.IntOrder).newOrder := by
    obtain ⟨side, price, minQl, maxQl⟩ := o
    dsimp only at hp hl hu
    rw [hp, hl, hu]
    rfl
  rw [horder]
  exact ⟨_, AlertFanOut.orderMatchesFilter_eq _⟩

def FromBook (orders : Fingerprinted) : Prop :=
  ∀ o ∈ orders, ∃ x : Order, o.2 = x.newOrder ∧ Fits (price x)

/-- The alert of a subscriber can be computed, and its text is clean. -/
theorem alertFor_total (hprints : PrintsClean py) {aoid : ℤ} {itemName : String}
    (hname : Clean itemName) {newOrders : Fingerprinted} (horders : FromBook newOrders)
    (sub : MarketSubscription) :
    ∃ alert, alertFor py aoid itemName newOrders sub = .ok alert ∧
      ∀ a ∈ alert, Clean a.2 := by
  have hfilter : ∀ o ∈ newOrders, ∃ b,
      orderMatchesFilter py o.2 sub.minPrice sub.maxPrice sub.minQl sub.maxQl = some b := by
    intro o ho
    obtain ⟨x, hx, _⟩ := horders o ho
    exact orderMatchesFilter_int (hx ▸ newOrder_intFields x) sub
  obtain ⟨kept, hkept, hsub⟩ := filterChecked_total hfilter
  have hmatching : orTypeError (matching py newOrders sub) = .ok kept := by
    rw [matching, hkept]
    rfl
  unfold alertFor
  rw [hmatching, ok_bind]
  by_cases hempty : kept.isEmpty = true
  · rw [if_pos hempty]
    exact ⟨none, rfl, by simp⟩
  · rw [if_neg hempty]
    have hrows : ∀ o ∈ kept, ∃ row, orderLine py o.2 = .ok row := by
      intro o ho
      obtain ⟨x, hx, hfits⟩ := horders o (hsub ho)
      obtain ⟨text, htext⟩ := @credits_fits py (price x) hfits
      have hprice : o.2.price = .num (.int (price x)) := by
        rw [hx]
        cases x <;> rfl
      unfold orderLine
      rw [hprice, htext]
      exact ⟨_, rfl⟩
    obtain ⟨rows, hrows⟩ := mapM_ok hrows
    have hformat : ∃ message, formatAlert py itemName aoid kept = .ok message := by
      unfold formatAlert
      rw [hrows, ok_bind]
      exact ⟨_, rfl⟩
    obtain ⟨message, hmessage⟩ := hformat
    rw [hmessage, ok_bind]
    refine ⟨some (kept, message), rfl, ?_⟩
    intro a ha
    cases ha
    refine clean_formatAlert hprints hname ?_ hmessage
    intro o ho
    obtain ⟨x, hx, _⟩ := horders o (hsub ho)
    rw [hx]
    exact newOrder_intFields x

/-- In a healthy environment no alert fails. -/
theorem delivery_finishes (h : Healthy env) (player : String) {message : String}
    (hmessage : Clean message) (t : ℕ) :
    ∃ t', (delivery env player message t).finish = some t' := by
  have htext : text env message = .ok () := if_pos (h.texts message hmessage)
  have hasked : ∃ online t', asked env player t = (.ok online, t') := by
    unfold asked
    cases hask : env.chat.isOnline with
    | none => exact ⟨_, _, rfl⟩
    | some ask =>
      obtain ⟨online, honline⟩ := isOk_iff.mp (h.online ask hask t player)
      exact ⟨online, t + 1, congrArg (fun answer => (answer, t + 1)) honline⟩
  obtain ⟨online, t', honline⟩ := hasked
  unfold delivery
  rw [honline]
  cases online with
  | true =>
    cases hsend : env.chat.sendTell with
    | none => exact ⟨_, rfl⟩
    | some send =>
      obtain ⟨u, hu⟩ := isOk_iff.mp (h.tells send hsend t' player message)
      dsimp only
      rw [hu]
      exact ⟨_, rfl⟩
  | false =>
    dsimp only
    rw [h.up, htext]
    exact ⟨_, rfl⟩

/-- In a healthy environment the alerts of a book have an end. -/
theorem alertsEnd_some (h : Healthy env) {aoid : ℤ} {itemName : String} (hname : Clean itemName)
    {newOrders : Fingerprinted} (horders : FromBook newOrders) (subs : List MarketSubscription)
    (t : ℕ) : ∃ t', alertsEnd env aoid itemName newOrders subs t = some t' := by
  induction subs generalizing t with
  | nil => exact ⟨t, rfl⟩
  | cons sub rest ih =>
    obtain ⟨alert, halert, hclean⟩ := @alertFor_total env.py h.prints aoid itemName hname newOrders
      horders sub
    rw [alertsEnd, halert]
    cases alert with
    | none => exact ih t
    | some a =>
      obtain ⟨t₁, ht₁⟩ := delivery_finishes h sub.player (hclean a rfl) t
      obtain ⟨t₂, ht₂⟩ := ih t₁
      exact ⟨t₂, by dsimp only; rw [ht₁]; exact ht₂⟩

/-- Every turn of a tracked item is safe. -/
theorem itemSafe (h : Healthy env) {watch : MarketWatch} {w : World}
    (hmem : watch ∈ w.db.watch) (hname : Clean watch.name) : ItemSafe env watch w := by
  unfold ItemSafe
  obtain ⟨answer, hanswer⟩ := isOk_iff.mp (h.answers w.tick watch.aoid)
  rw [hanswer]
  cases answer with
  | none => exact h.up _
  | some book =>
    obtain ⟨htyped, hbook⟩ := h.books w.tick watch.aoid book hanswer
    have hstores : StoresSnapshot env watch book w.db (w.tick + 1) :=
      storesSnapshot_fits (h.up _) htyped (fun x hx => (hbook x hx).1) (List.mem_map_of_mem hmem)
    have hseen : ∀ t, StoresSeen env book t := by
      refine fun t => ⟨h.up t, ?_⟩
      intro fp hfp
      obtain ⟨x, hx, rfl⟩ := (mem_fingerprints htyped).mp hfp
      exact if_pos (h.texts _ (clean_fingerprint (hbook x hx).2))
    have hpass : ∀ seen subs t, ∃ t', passEnd env watch book seen subs t = some t' := by
      intro seen subs t
      have horders : FromBook (newOrders env book seen) := by
        intro o ho
        obtain ⟨_, x, hx, _, hnew⟩ := (@mem_newOrders env book htyped seen o.1 o.2).mp ho
        exact ⟨x, hnew.symm, (hbook x hx).1⟩
      unfold passEnd
      split
      · exact ⟨t, rfl⟩
      · rw [if_pos (h.up t)]
        exact alertsEnd_some h hname horders _ _
    obtain ⟨t, ht⟩ := hpass (seenFingerprints w.db watch.aoid) (subscribers w.db watch.aoid)
      (w.tick + 2 + 1)
    exact ⟨hstores, h.up _, t, ht, hseen t, h.up _⟩

end Turns

/-! The cycle -/

/-- Nor does a turn of the loop. -/
theorem pollItems_completes (h : Healthy env) {now : ℤ} {began : Option ℕ}
    {due : List MarketWatch} {w : World}
    (hnodup : (due.map MarketWatch.aoid).Nodup) (hrows : ∀ x ∈ due, x ∈ w.db.watch)
    (hnames : ∀ x ∈ due, Clean x.name) :
    ∃ updated w', (pollItems env now began due).run w = (.ok updated, w') := by
  induction due generalizing began w with
  | nil => exact ⟨0, w, rfl⟩
  | cons watch rest ih =>
    obtain ⟨hwatch, hnodup⟩ := List.nodup_cons.mp hnodup
    have hmem := hrows watch List.mem_cons_self
    obtain ⟨b, w₁, hrun, _⟩ := @turn_ok env now began watch w
      (itemSafe h hmem (hnames watch List.mem_cons_self)) hmem
    have hrest : ∀ x ∈ rest, x ∈ w₁.db.watch :=
      rows_after_turn hwatch hrun fun x hx => hrows x (List.mem_cons_of_mem watch hx)
    obtain ⟨others, w', hloop⟩ := ih hnodup hrest fun x hx => hnames x (List.mem_cons_of_mem _ hx)
    refine ⟨(if b then 1 else 0) + others, w', ?_⟩
    rw [pollItems, Coro.run_bind_ok hrun, Coro.run_bind_ok hloop]
    rfl

/-- Selecting what is due only takes rows away. -/
theorem selectDue_watch_subset (w : World) : ((selectDue env).run w).2.db.watch ⊆ w.db.watch := by
  have hkeeps : Keeps (fun op => op = .pruneHistory ∨ ∃ aoids, op = .deleteStale aoids)
      (selectDue env) := keeps_selectDue (fun aoids => Or.inr ⟨aoids, rfl⟩) (Or.inl rfl)
  refine hkeeps.run_rel (R := fun db db' => db'.watch ⊆ db.watch) (fun _ => List.Subset.refl _)
    (fun hab hbc => List.Subset.trans hbc hab) ?_ w
  rintro op db db' note (rfl | ⟨aoids, rfl⟩) heffect
  · rw [heffect.watch_eq (by simp [TouchesWatch])]
    exact List.Subset.refl _
  · cases heffect
    exact fun r hr => (mem_deleteRows.mp hr).1

theorem announceCycle_completes (h : Healthy env) (due : Due) (updated : ℕ) {w : World} {b : Bool}
    (hread : readSetting env w.db "LogBackgroundToPrivateChannel" = .ok (.bool b)) :
    ∃ w', (announceCycle env due updated).run w = (.ok (), w') := by
  unfold announceCycle
  split
  · unfold announceBackground
    rw [Coro.run_bind_ok (run_getBool_ok (h.up _) hread)]
    cases b with
    | false => exact ⟨_, rfl⟩
    | true =>
      simp only [Bool.not_true, Bool.false_eq_true, if_false]
      unfold sendPrivgroup
      cases hsend : env.chat.sendPrivgroup with
      | none => exact ⟨_, rfl⟩
      | some send =>
        obtain ⟨u, hu⟩ := isOk_iff.mp (h.privgroup send hsend w.next.tick _)
        exact ⟨_, run_external_ok hu⟩
  · exact ⟨w, rfl⟩

/-- What the four settings of the cycle and the current date have to satisfy. -/
def Pollable (env : Env) (w : World) : Prop :=
  ∃ retention expire interval batch,
    readSetting env w.db "HistoryRetentionDays" = .ok (.int retention) ∧
    readSetting env w.db "WatchExpireDays" = .ok (.int expire) ∧
    readSetting env w.db "PollIntervalMinutes" = .ok (.int interval) ∧
    readSetting env w.db "PollBatchSize" = .ok (.int batch) ∧
    Limits (env.clock w.tick) retention expire interval batch

section Cycle
variable {app : App} {w : World}

/-- In every state the settings can be brought to, a cycle in a healthy environment completes if
and only if the cut-off times are representable and the batch size is a limit. -/
theorem cycle_completes_iff (h : SettingsRun app w) (healthy : Healthy app.env)
    (hnames : ∀ r ∈ w.db.watch, Clean r.name) :
    ((pollMarket app.env).run w).1.isOk = true ↔ Pollable app.env w := by
  obtain ⟨retention, hretention⟩ := @SettingsRun.reads_int app w h "HistoryRetentionDays" (by decide)
  obtain ⟨expire, hexpire⟩ := @SettingsRun.reads_int app w h "WatchExpireDays" (by decide)
  obtain ⟨interval, hinterval⟩ := @SettingsRun.reads_int app w h "PollIntervalMinutes" (by decide)
  obtain ⟨batch, hbatch⟩ := @SettingsRun.reads_int app w h "PollBatchSize" (by decide)
  have hpollable : Pollable app.env w ↔
      Limits (app.env.clock w.tick) retention expire interval batch := by
    constructor
    · rintro ⟨_, _, _, _, h₁, h₂, h₃, h₄, hlimits⟩
      rw [hretention] at h₁
      rw [hexpire] at h₂
      rw [hinterval] at h₃
      rw [hbatch] at h₄
      cases h₁
      cases h₂
      cases h₃
      cases h₄
      exact hlimits
    · exact fun hlimits =>
        ⟨retention, expire, interval, batch, hretention, hexpire, hinterval, hbatch, hlimits⟩
  rw [hpollable, ← selectDue_ok_iff healthy.up hretention hexpire hinterval hbatch]
  unfold pollMarket
  rcases hselect : (selectDue app.env).run w with ⟨e | due, w₁⟩
  · rw [Coro.run_bind_error hselect]
    simp [Except.isOk, Except.toBool]
  · rw [Coro.run_bind_ok hselect]
    obtain ⟨_, _, hnodup, hdue⟩ := selectDue_ok hselect
    have hsubset : w₁.db.watch ⊆ w.db.watch := by
      have hsubset := @selectDue_watch_subset app.env w
      rwa [hselect] at hsubset
    have hrows : ∀ x ∈ due.items, x ∈ w₁.db.watch := fun x hx => (hdue x hx).1
    obtain ⟨updated, w₂, hloop⟩ := @pollItems_completes app.env healthy due.now (some due.began) due.items w₁ hnodup
      hrows fun x hx => hnames x (hsubset (hrows x hx))
    have hsettings : w₂.db.settings = w.db.settings := by
      have hselectKeeps : Keeps (fun op => op ≠ .setting) (selectDue app.env) :=
        keeps_selectDue (by simp) (by simp)
      have hloopKeeps : Keeps (fun op => op ≠ .setting) (pollItems app.env due.now (some due.began) due.items) := by
        apply keeps_pollItems
        rintro watch _ op ((rfl | rfl | rfl | ⟨p, rfl | rfl⟩ | rfl) | rfl) <;> simp
      have heffect : ∀ op db db' note, op ≠ Write.setting → Effect op db db' note →
          db'.settings = db.settings := fun op db db' note hop heffect => heffect.settings_eq hop
      rw [hloopKeeps.eq_of_run (f := fun db => db.settings) heffect hloop,
        hselectKeeps.eq_of_run (f := fun db => db.settings) heffect hselect]
    obtain ⟨b, hread⟩ := @SettingsRun.reads_bool app w h "LogBackgroundToPrivateChannel" (by decide)
    have hread₂ : readSetting app.env w₂.db "LogBackgroundToPrivateChannel" = .ok (.bool b) := by
      unfold readSetting at hread ⊢
      rwa [hsettings]
    obtain ⟨w₃, hannounce⟩ := announceCycle_completes healthy due updated hread₂
    rw [Coro.run_bind_ok hloop, Coro.run_bind_ok hannounce]
    simp [Except.isOk, Except.toBool]

end Cycle

/-! A batch size no statement takes -/

def tradingApp : App :=
  { ownedApp with
    env := { ownedApp.env with getOrders := fun _ _ => .ok (some offered) } }

def tradingWorld : World := ((seedDefaults tradingApp.env).run { db := tracked }).2

def ownerSends (key value : String) : World :=
  ((AdminCommands.handleAdminCommand tradingApp.env "Tara"
    ("!settings " ++ key ++ " " ++ value)).run tradingWorld).2

theorem ownerSends_run (key value : String) : SettingsRun tradingApp (ownerSends key value) :=
  .chat (.seeded rfl rfl) _ _

theorem tradingApp_healthy : Healthy tradingApp.env where
  up _ := rfl
  texts _ _ := rfl
  prints x := by
    show Clean "nan"
    decide
  answers _ _ := rfl
  books t aoid book h := by
    cases h
    decide
  online ask h := nomatch h
  tells send h := nomatch h
  privgroup send h := nomatch h

theorem small_batch_polls :
    ((pollMarket tradingApp.env).run (ownerSends "PollBatchSize" "10")).1.isOk = true ↔
      Pollable tradingApp.env (ownerSends "PollBatchSize" "10") :=
  cycle_completes_iff (ownerSends_run _ _) tradingApp_healthy (by decide +kernel)

/-- The command accepts -1 as batch size, and from then on no cycle completes. -/
theorem negative_batch_stops_polling :
    SettingsRun tradingApp (ownerSends "PollBatchSize" "-1") ∧ Healthy tradingApp.env ∧
      (∀ r ∈ (ownerSends "PollBatchSize" "-1").db.watch, Clean r.name) ∧
      ((AdminCommands.handleAdminCommand tradingApp.env "Tara" "!settings PollBatchSize -1").run
        tradingWorld).1 = .ok (some "PollBatchSize = -1") ∧
      ((pollMarket tradingApp.env).run (ownerSends "PollBatchSize" "-1")).1 = .error .database :=
  ⟨ownerSends_run _ _, tradingApp_healthy, by decide +kernel, by decide +kernel, by rfl⟩

end AoMarket.SettingLimits
