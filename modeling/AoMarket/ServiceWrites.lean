import AoMarket.Runner
import AoMarket.Writes

/-!
The writes of the services: what registration, subscriptions, filters, a poll
cycle, a resync and every chat command are made of.
-/

namespace AoMarket.ServiceWrites

open Coroutine Models Database OrderBook Environment MarketService Polling Writes
open MarketRepo hiding register logAction clearFilter

variable {A : Write → Prop} {env : Env}

/-! announce/log -/

theorem keeps_getItem (aoid : ℤ) : Keeps A (getItem env aoid) :=
  keeps_external fun _ => Silent.nil

theorem silent_single {e : Event} (h : plain e = true) : Silent [e] := by
  intro e' he
  rw [List.mem_singleton.mp he]
  exact h

theorem keeps_sendPrivgroup (message : String) : Keeps A (sendPrivgroup env message) := by
  unfold sendPrivgroup
  split
  · exact keeps_external fun _ => silent_single rfl
  · exact Coro.Frames.pure _

theorem keeps_announce (player action : String) (aoid : Option ℤ) :
    Keeps A (announce env player action aoid) := by
  refine Coro.Frames.bind (keeps_getBool _) fun on => ?_
  cases on with
  | false => exact Coro.Frames.pure _
  | true =>
    cases aoid with
    | none => exact keeps_sendPrivgroup _
    | some a =>
      refine Coro.Frames.bind (keeps_getItem a) fun item => ?_
      cases item with
      | none => exact keeps_sendPrivgroup _
      | some i => exact keeps_sendPrivgroup _

theorem keeps_announceBackground (message : String) :
    Keeps A (announceBackground env message) := by
  refine Coro.Frames.bind (keeps_getBool _) fun on => ?_
  cases on with
  | false => exact Coro.Frames.pure _
  | true => exact keeps_sendPrivgroup _

theorem keeps_announceTracked (itemName : String) (auto : Bool) :
    Keeps A (announceTracked env itemName auto) := by
  cases auto with
  | true => exact keeps_announceBackground _
  | false =>
    refine Coro.Frames.bind (keeps_getBool _) fun on => ?_
    cases on with
    | false => exact Coro.Frames.pure _
    | true => exact keeps_sendPrivgroup _

theorem keeps_logAction (h : A .insertAction) (player action : String) (aoid : Option ℤ) :
    Keeps A (logAction env player action aoid) :=
  Coro.Frames.bind (keeps_repoLogAction h player action aoid) fun _ => keeps_announce _ _ _

/-! Players -/

theorem keeps_register {player : String} (hu : A (.insertUser player)) (ha : A .insertAction) :
    Keeps A (register env player) := by
  refine Coro.Frames.bind (keeps_isRegistered player) fun registered => ?_
  cases registered with
  | true => exact Coro.Frames.throw _
  | false => exact Coro.Frames.bind (keeps_repoRegister hu) fun _ => keeps_logAction ha _ _ _

theorem keeps_unregister {player : String} (h : A (.eraseUser player)) :
    Keeps A (unregister env player) := by
  refine Coro.Frames.bind (keeps_isRegistered player) fun registered => ?_
  cases registered with
  | false => exact Coro.Frames.throw _
  | true =>
    refine Coro.Frames.bind (keeps_unregisterCascade h) fun _ => ?_
    exact Coro.Frames.bind (keeps_announce _ _ _) fun _ => Coro.Frames.pure _

/-- The writes of a subscription besides the upsert of the watch row. -/
def SubscribeWrites (player : String) (aoid : ℤ) (op : Write) : Prop :=
  op = .insertSubscription player aoid ∨ op = .insertAction

section Subscribing
variable {R : World → World → Prop} {player : String} {aoid : ℤ}

theorem frames_watchItem (hstep : ∀ w w', Steps (fun _ => False) w w' → R w w') {name : String}
    {ql : ℤ} {icon : Option ℤ} {auto : Bool}
    (hwatch : (upsertWatch env aoid name ql icon auto).Frames R) :
    (watchItem env aoid name ql icon auto).Frames R := by
  refine Coro.Frames.bind hwatch fun isNew => ?_
  cases isNew with
  | false => exact Coro.Frames.pure _
  | true =>
    refine Coro.Frames.bind ?_ fun _ => Coro.Frames.pure _
    exact Coro.Frames.mono (keeps_announceTracked _ _) hstep

theorem frames_subscribeWithin
    (hstep : ∀ w w', Steps (SubscribeWrites player aoid) w w' → R w w')
    (hwatch : ∀ name ql icon, (upsertWatch env aoid name ql icon false).Frames R) (item : Item) :
    (subscribeWithin env player aoid item).Frames R := by
  have hquiet : ∀ w w', Steps (fun _ => False) w w' → R w w' :=
    fun w w' h => hstep w w' (h.mono fun _ hop => hop.elim)
  refine Coro.Frames.bind (Coro.Frames.mono (keeps_getInt _) hquiet) fun limit => ?_
  refine Coro.Frames.bind (Coro.Frames.mono (keeps_countSubscriptions player) hquiet) fun count => ?_
  split
  · exact Coro.Frames.throw _
  · refine Coro.Frames.bind (frames_watchItem hquiet (hwatch _ _ _)) fun _ => ?_
    refine Coro.Frames.bind (Coro.Frames.mono (keeps_addSubscription (Or.inl rfl)) hstep) fun _ => ?_
    refine Coro.Frames.bind ?_ fun _ => Coro.Frames.pure _
    exact Coro.Frames.mono (keeps_logAction (Or.inr rfl) _ _ _) hstep

/-- A subscription is one upsert of the watch row and steps of the player's own. -/
theorem frames_subscribe (hstep : ∀ w w', Steps (SubscribeWrites player aoid) w w' → R w w')
    (hwatch : ∀ name ql icon, (upsertWatch env aoid name ql icon false).Frames R) :
    (subscribe env player aoid).Frames R := by
  have hquiet : ∀ w w', Steps (fun _ => False) w w' → R w w' :=
    fun w w' h => hstep w w' (h.mono fun _ hop => hop.elim)
  refine Coro.Frames.bind (Coro.Frames.mono (keeps_getItem aoid) hquiet) fun item => ?_
  cases item with
  | none => exact Coro.Frames.throw _
  | some item =>
    refine Coro.Frames.bind (Coro.Frames.mono (keeps_isRegistered player) hquiet) fun registered => ?_
    cases registered with
    | false =>
      refine Coro.Frames.bind ?_ fun _ => Coro.Frames.throw _
      exact Coro.Frames.mono (keeps_logAction (Or.inr rfl) _ _ _) hstep
    | true =>
      refine Coro.Frames.bind (Coro.Frames.mono (keeps_getSubscription player aoid) hquiet) fun sub => ?_
      cases sub with
      | some s => exact Coro.Frames.throw _
      | none => exact frames_subscribeWithin hstep hwatch item

end Subscribing

theorem keeps_watchItem {aoid : ℤ} (h : A (.upsertWatch aoid)) (name : String) (ql : ℤ)
    (icon : Option ℤ) (auto : Bool) : Keeps A (watchItem env aoid name ql icon auto) :=
  frames_watchItem (fun _ _ h => h.mono fun _ hop => hop.elim) (keeps_upsertWatch h name ql icon auto)

/-- A subscription upserts the item, inserts its row and logs the action. -/
theorem keeps_subscribe {player : String} {aoid : ℤ} (hw : A (.upsertWatch aoid))
    (hs : A (.insertSubscription player aoid)) (ha : A .insertAction) :
    Keeps A (subscribe env player aoid) := by
  apply frames_subscribe
  · intro w w' h
    apply h.mono
    rintro op (rfl | rfl)
    · exact hs
    · exact ha
  · intro name ql icon
    exact keeps_upsertWatch hw name ql icon false

theorem keeps_unsubscribe {player : String} {aoid : ℤ} (hs : A (.deleteSubscription player aoid))
    (ha : A .insertAction) : Keeps A (unsubscribe env player aoid) := by
  refine Coro.Frames.bind (keeps_deleteSubscription hs) fun _ => ?_
  exact Coro.Frames.bind (keeps_logAction ha _ _ _) fun _ => Coro.Frames.pure _

theorem keeps_unsubscribeEach {player : String} (ha : A .insertAction) {aoids : List ℤ}
    (hs : ∀ a ∈ aoids, A (.deleteSubscription player a)) :
    Keeps A (unsubscribeEach env player aoids) := by
  induction aoids with
  | nil => exact Coro.Frames.pure _
  | cons a rest ih =>
    refine Coro.Frames.bind (keeps_unsubscribe (hs a List.mem_cons_self) ha) fun deleted => ?_
    refine Coro.Frames.bind (ih fun b hb => hs b (List.mem_cons_of_mem a hb)) fun r => ?_
    cases deleted with
    | true => exact Coro.Frames.pure _
    | false => exact Coro.Frames.pure _

theorem keeps_unsubscribeBulk {player : String} (ha : A .insertAction) {aoids : List ℤ}
    (hs : ∀ a ∈ aoids, A (.deleteSubscription player a)) :
    Keeps A (unsubscribeBulk env player aoids) := by
  apply keeps_unsubscribeEach ha
  intro a h
  apply hs
  rwa [List.mem_insertionSort, List.mem_dedup] at h

theorem keeps_unsubscribeAll {player : String} (hs : A (.deleteSubscriptions player))
    (ha : A .insertAction) : Keeps A (unsubscribeAll env player) := by
  refine Coro.Frames.bind (keeps_deleteAllSubscriptions hs) fun _ => ?_
  exact Coro.Frames.bind (keeps_logAction ha _ _ _) fun _ => Coro.Frames.pure _

theorem keeps_requireSubscription (player : String) (aoid : ℤ) :
    Keeps A (requireSubscription env player aoid) := by
  refine Coro.Frames.bind (keeps_getSubscription player aoid) fun sub => ?_
  cases sub with
  | some s => exact Coro.Frames.pure _
  | none => exact Coro.Frames.throw _

theorem keeps_setFilter (player : String) (aoid : ℤ) (spec : String)
    (parser : String → Except PyErr (Option ℤ)) {update : Option ℤ → Option ℤ → M Unit}
    (h : ∀ lo hi, Keeps A (update lo hi)) :
    Keeps A (setFilter env player aoid spec parser update) := by
  unfold setFilter
  generalize Parsing.parseRange spec parser = result
  refine Coro.Frames.bind (keeps_requireSubscription player aoid) fun _ => ?_
  refine Coro.Frames.bind (Coro.Frames.ofExcept result) fun parsed => ?_
  cases parsed with
  | none => exact Coro.Frames.throw _
  | some range => exact h _ _

theorem keeps_setPriceFilter {player : String} {aoid : ℤ} (h : A (.updateFilter player aoid))
    (spec : String) : Keeps A (setPriceFilter env player aoid spec) := by
  unfold setPriceFilter
  exact keeps_setFilter _ _ _ _ (keeps_updatePriceFilter h)

theorem keeps_setQlFilter {player : String} {aoid : ℤ} (h : A (.updateFilter player aoid))
    (spec : String) : Keeps A (setQlFilter env player aoid spec) := by
  unfold setQlFilter
  exact keeps_setFilter _ _ _ _ (keeps_updateQlFilter h)

theorem keeps_clearFilter {player : String} {aoid : ℤ} (h : A (.updateFilter player aoid)) :
    Keeps A (clearFilter env player aoid) :=
  Coro.Frames.bind (keeps_requireSubscription player aoid) fun _ => keeps_repoClearFilter h

theorem keeps_userStats (player : String) : Keeps A (userStats env player) := by
  refine Coro.Frames.bind (keeps_query Silent.nil) fun summary => ?_
  obtain ⟨total, firstSeen⟩ := summary
  dsimp only
  split
  · exact Coro.Frames.pure _
  · refine Coro.Frames.bind (keeps_query Silent.nil) fun _ => ?_
    exact Coro.Frames.bind (keeps_countSubscriptions player) fun _ => Coro.Frames.pure _

theorem keeps_statusSummary : Keeps A (statusSummary env) := by
  refine Coro.Frames.bind (keeps_countWatch none) fun _ => ?_
  refine Coro.Frames.bind (keeps_countWatch _) fun _ => ?_
  refine Coro.Frames.bind (keeps_getBool _) fun _ => ?_
  refine Coro.Frames.bind (keeps_getInt _) fun _ => ?_
  exact Coro.Frames.bind (keeps_getInt _) fun _ => Coro.Frames.pure _

/-! Polling -/

theorem keeps_sendTell (player message : String) : Keeps A (sendTell env player message []) := by
  unfold sendTell
  split
  · exact keeps_external fun _ => silent_single rfl
  · exact Coro.Frames.pure _

/-- A delivery deletes the player's alerts and writes nothing else. -/
theorem keeps_deliverPendingAlerts {player : String} (h : A (.deleteAlerts player)) :
    Keeps A (deliverPendingAlerts env player) := by
  refine Coro.Frames.bind (keeps_popPendingAlerts h) fun alerts => ?_
  refine Coro.Frames.bind ?_ fun _ => Coro.Frames.pure _
  induction alerts with
  | nil => exact Coro.Frames.pure _
  | cons alert rest ih => exact Coro.Frames.bind (keeps_sendTell _ _) fun _ => ih

theorem keeps_sendAlert {player : String} {aoid : ℤ} (h : A (.alertTell player aoid))
    (message : String) (orders : Fingerprinted) :
    Keeps A (sendTell env player message [.alerted player aoid orders true]) := by
  unfold sendTell
  split
  · apply frames_external Steps.next
    exact fun w _ => ⟨rfl, _, rfl, Or.inr ⟨_, h, .alertTell w.db player aoid message orders⟩⟩
  · exact Coro.Frames.pure _

theorem keeps_isOnline (player : String) : Keeps A (isOnline env player) := by
  unfold isOnline
  split
  · exact keeps_external fun _ => Silent.nil
  · exact Coro.Frames.pure _

def AlertWrites (aoid : ℤ) (op : Write) : Prop :=
  ∃ player, op = .alertTell player aoid ∨ op = .queueAlert player aoid

theorem keeps_alertSubscriber {aoid : ℤ} (h : ∀ op, AlertWrites aoid op → A op)
    (player message : String) (orders : Fingerprinted) :
    Keeps A (alertSubscriber env aoid player message orders) := by
  refine Coro.Frames.bind (keeps_isOnline player) fun online => ?_
  cases online with
  | true => exact keeps_sendAlert (h _ ⟨player, Or.inl rfl⟩) _ _
  | false => exact keeps_queuePendingAlert (h _ ⟨player, Or.inr rfl⟩) _ _

theorem keeps_notifyEach {aoid : ℤ} (h : ∀ op, AlertWrites aoid op → A op)
    (itemName : String) (newOrders : Fingerprinted) (subs : List MarketSubscription) :
    Keeps A (notifyEach env aoid itemName newOrders subs) := by
  induction subs with
  | nil => exact Coro.Frames.pure _
  | cons sub rest ih =>
    refine Coro.Frames.bind (Coro.Frames.ofExcept _) fun orders => ?_
    split
    · exact ih
    · refine Coro.Frames.bind (Coro.Frames.ofExcept _) fun message => ?_
      refine Coro.Frames.bind (keeps_alertSubscriber h _ _ _) fun _ => ?_
      exact Coro.Frames.bind ih fun _ => Coro.Frames.pure _

theorem keeps_notifySubscribers {aoid : ℤ} (h : ∀ op, AlertWrites aoid op → A op)
    (hn : A (.notify aoid)) (itemName : String) (newOrders : Fingerprinted) :
    Keeps A (notifySubscribers env aoid itemName newOrders) :=
  Coro.Frames.bind (keeps_subscribersForAoid hn _) fun _ => keeps_notifyEach h _ _ _

def ExamineWrites (aoid cycle : ℤ) (op : Write) : Prop :=
  op = .fetch aoid ∨ op = .insertHistory aoid cycle ∨ op = .notify aoid ∨ AlertWrites aoid op ∨
    op = .replaceSeen aoid

def PollWrites (aoid cycle : ℤ) (op : Write) : Prop :=
  ExamineWrites aoid cycle op ∨ op = .setLastPolled aoid cycle

theorem keeps_detectNewOrders {aoid cycle : ℤ} (h : ∀ op, ExamineWrites aoid cycle op → A op)
    (orders : Orders) (itemName : String) :
    Keeps A (detectNewOrders env aoid orders itemName) := by
  refine Coro.Frames.bind (keeps_getSeenFingerprints aoid) fun seen => ?_
  have hreplace : Keeps A (replaceSeenFingerprints env aoid (orders.fingerprints env.py)) :=
    keeps_replaceSeenFingerprints (h _ (by simp [ExamineWrites])) _
  dsimp only
  split
  · split
    · refine Coro.Frames.bind (keeps_notifySubscribers ?_ ?_ _ _) fun _ => hreplace
      · exact fun op hop => h op (by simp [ExamineWrites, hop])
      · exact h _ (by simp [ExamineWrites])
    · exact hreplace
  · exact hreplace

theorem keeps_snapshot {cycle aoid : ℤ} {began : Option ℕ} (h : A (.insertHistory aoid cycle)) (orders : Orders)
    (anchorQl : ℤ) : Keeps A (snapshot env cycle began aoid orders anchorQl) :=
  Coro.Frames.bind (Coro.Frames.ofExcept _) fun _ => keeps_insertSnapshot h _ _ _ _ _ _ _ _

theorem keeps_getOrders {aoid : ℤ} (h : A (.fetch aoid)) : Keeps A (getOrders env aoid) := by
  apply frames_external Steps.next
  intro w book
  cases book with
  | none => exact Steps.noted Silent.nil
  | some b => exact ⟨rfl, _, rfl, Or.inr ⟨_, h, .fetch w.db aoid b⟩⟩

/-- A turn writes about its own item only. -/
theorem keeps_pollItem {now : ℤ} {began : Option ℕ} {watch : MarketWatch}
    (h : ∀ op, PollWrites watch.aoid now op → A op) : Keeps A (pollItem env now began watch) := by
  have hupdate : Keeps A (updateLastPolled env watch.aoid now) :=
    keeps_updateLastPolled (h _ (by simp [PollWrites, ExamineWrites]))
  refine Coro.Frames.bind (keeps_getOrders (h _ (by simp [PollWrites, ExamineWrites]))) fun orders => ?_
  cases orders with
  | none => exact Coro.Frames.bind hupdate fun _ => Coro.Frames.pure _
  | some book =>
    refine Coro.Frames.bind (keeps_snapshot (h _ (by simp [PollWrites, ExamineWrites])) _ _) fun _ => ?_
    refine Coro.Frames.bind ?_ fun _ => Coro.Frames.bind hupdate fun _ => Coro.Frames.pure _
    exact keeps_detectNewOrders (fun op hop => h op (Or.inl hop)) _ _

theorem keeps_pollItems {now : ℤ} {began : Option ℕ} {due : List MarketWatch}
    (h : ∀ watch ∈ due, ∀ op, PollWrites watch.aoid now op → A op) :
    Keeps A (pollItems env now began due) := by
  induction due generalizing began with
  | nil => exact Coro.Frames.pure _
  | cons watch rest ih =>
    refine Coro.Frames.bind (keeps_pollItem (h watch List.mem_cons_self)) fun _ => ?_
    refine Coro.Frames.bind (ih fun x hx => h x (List.mem_cons_of_mem watch hx)) fun _ => ?_
    exact Coro.Frames.pure _

theorem keeps_selectDue (hstale : ∀ aoids, A (.deleteStale aoids)) (hprune : A .pruneHistory) :
    Keeps A (selectDue env) := by
  refine Coro.Frames.bind (keeps_external fun _ => Silent.nil) fun now => ?_
  refine Coro.Frames.bind (keeps_getInt _) fun _ => ?_
  refine Coro.Frames.bind (keeps_getInt _) fun _ => ?_
  refine Coro.Frames.bind (keeps_getInt _) fun _ => ?_
  refine Coro.Frames.bind (keeps_getInt _) fun _ => ?_
  refine Coro.Frames.bind (Coro.Frames.ofExcept _) fun _ => ?_
  refine Coro.Frames.bind (keeps_expireStaleWatch hstale _) fun _ => ?_
  refine Coro.Frames.bind (Coro.Frames.ofExcept _) fun _ => ?_
  refine Coro.Frames.bind (keeps_pruneHistory hprune _) fun _ => ?_
  refine Coro.Frames.bind (Coro.Frames.ofExcept _) fun _ => ?_
  exact Coro.Frames.bind (keeps_query Silent.nil) fun _ => Coro.Frames.pure _

theorem keeps_announceCycle (due : Due) (updated : ℕ) :
    Keeps A (announceCycle env due updated) := by
  unfold announceCycle
  split
  · exact keeps_announceBackground _
  · exact Coro.Frames.pure _

/-! Auto-track -/

theorem keeps_fetchPages (sourceUrl : String) (count : ℤ) (pages : List ℕ) (fetched : ℕ)
    (aoids : List ℤ) : Keeps A (AutoTrack.fetchPages env sourceUrl count pages fetched aoids) := by
  induction pages generalizing fetched aoids with
  | nil => exact Coro.Frames.pure _
  | cons page rest ih =>
    refine Coro.Frames.bind (keeps_external fun _ => Silent.nil) fun html => ?_
    cases html with
    | none => exact Coro.Frames.pure _
    | some html =>
      refine Coro.Frames.bind (Coro.Frames.ofExcept _) fun found => ?_
      split
      · exact Coro.Frames.pure _
      · dsimp only
        split
        · exact Coro.Frames.pure _
        · exact ih _ _

theorem keeps_mapM {α β : Type} {f : α → M β} (h : ∀ a, Keeps A (f a)) (l : List α) :
    Keeps A (l.mapM f) := by
  induction l with
  | nil => exact Coro.Frames.pure _
  | cons a rest ih =>
    rw [List.mapM_cons]
    refine Coro.Frames.bind (h a) fun _ => ?_
    exact Coro.Frames.bind ih fun _ => Coro.Frames.pure _

theorem keeps_recordLookups (h : A .backoff) (answers : List (ℤ × Option Item)) :
    Keeps A (AutoTrack.recordLookups env answers) := by
  induction answers with
  | nil => exact Coro.Frames.pure _
  | cons answer rest ih =>
    obtain ⟨aoid, item⟩ := answer
    cases item with
    | none => exact Coro.Frames.bind (keeps_recordFailure h aoid) fun _ => ih
    | some item =>
      refine Coro.Frames.bind (keeps_recordSuccess h aoid) fun _ => ?_
      exact Coro.Frames.bind ih fun _ => Coro.Frames.pure _

theorem keeps_resolveItems (h : A .backoff) (aoids : List ℤ) :
    Keeps A (AutoTrack.resolveItems env aoids) := by
  unfold AutoTrack.resolveItems
  split
  · exact Coro.Frames.pure _
  · refine Coro.Frames.bind (keeps_dueForRetry aoids) fun due => ?_
    refine Coro.Frames.bind (keeps_mapM (fun a => ?_) _) fun answers => keeps_recordLookups h _
    exact Coro.Frames.bind (keeps_getItem a) fun _ => Coro.Frames.pure _

theorem keeps_trackResolved (h : ∀ aoid, A (.upsertWatch aoid)) (existing : List ℤ)
    (resolved : List (ℤ × Item)) : Keeps A (AutoTrack.trackResolved env existing resolved) := by
  induction resolved with
  | nil => exact Coro.Frames.pure _
  | cons r rest ih =>
    obtain ⟨aoid, item⟩ := r
    refine Coro.Frames.bind (keeps_upsertWatch (h aoid) _ _ _ _) fun _ => ?_
    dsimp only
    split
    · exact Coro.Frames.bind (keeps_announceTracked _ _) fun _ => ih
    · exact ih

/-- A resync writes backoff rows, flags, watch rows and its own time, and nothing else. -/
theorem keeps_syncTopTradedItems (hb : A .backoff) (hu : A .unflag)
    (hw : ∀ aoid, A (.upsertWatch aoid)) (hs : A .setting) :
    Keeps A (AutoTrack.syncTopTradedItems env) := by
  refine Coro.Frames.bind (keeps_getBool _) fun on => ?_
  cases on with
  | false => exact Coro.Frames.pure _
  | true =>
    refine Coro.Frames.bind (keeps_getInt _) fun count => ?_
    split
    · exact Coro.Frames.pure _
    · refine Coro.Frames.bind (Coro.Frames.ofExcept _) fun pages => ?_
      refine Coro.Frames.bind (keeps_getStr _) fun url => ?_
      refine Coro.Frames.bind (keeps_fetchPages _ _ _ _ _) fun r => ?_
      dsimp only
      split
      · exact Coro.Frames.pure _
      · refine Coro.Frames.bind ?_ fun _ => Coro.Frames.pure _
        refine Coro.Frames.bind (keeps_resolveItems hb _) fun resolved => ?_
        refine Coro.Frames.bind (keeps_unflagAutotrackNotIn hu _) fun _ => ?_
        refine Coro.Frames.bind (keeps_existingAoids _) fun existing => ?_
        refine Coro.Frames.bind (keeps_trackResolved hw _ _) fun _ => ?_
        refine Coro.Frames.bind (keeps_external fun _ => Silent.nil) fun now => ?_
        refine Coro.Frames.bind (keeps_set hs _ _) fun _ => ?_
        exact Coro.Frames.bind (keeps_announceBackground _) fun _ => Coro.Frames.pure _

end AoMarket.ServiceWrites
