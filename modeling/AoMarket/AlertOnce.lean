import AoMarket.PollRuns
import AoMarket.Separation

/-!
How often an order is alerted. Alerts go out one subscriber at a time while the
seen set is replaced only after the last one, so a pass that breaks off after an
alert is repeated by the next poll. If no pass breaks off there, no subscriber is
alerted twice to an order before the order is gone.
-/

namespace AoMarket.AlertOnce

open Coroutine Relational Models Database OrderBook PyText Environment MarketRepo Polling Writes
  ServiceWrites PollTurn PollRuns Separation

variable {env : Env}

/-- An alert of the item to the player, sent or queued, that lists the order. -/
def Mentions (player : String) (aoid : ℤ) (fp : String) : Event → Prop
  | .alerted p a orders _ => p = player ∧ a = aoid ∧ fp ∈ orders.map Prod.fst
  | _ => False

instance (player : String) (aoid : ℤ) (fp : String) (e : Event) :
    Decidable (Mentions player aoid fp e) :=
  match e with
  | .alerted p a orders _ =>
    inferInstanceAs (Decidable (p = player ∧ a = aoid ∧ fp ∈ orders.map Prod.fst))
  | .created _ | .fetched _ _ | .snapshot _ _ | .notified _ _ | .replaced _ _ | .tell _ _
  | .privgroup _ | .reply _ _ => .isFalse id

def Gone (py : Runtime) (aoid : ℤ) (fp : String) : Event → Prop
  | .fetched a book => a = aoid ∧ fp ∉ book.fingerprints py
  | _ => False

/-! The loop over the subscribers as steps -/

/-- What the loop does with the rows, from one world to another. -/
inductive Loop (env : Env) (aoid : ℤ) (itemName : String) (newOrders : Fingerprinted) :
    List MarketSubscription → World → Except PyErr ℕ → World → Prop
  | done (w : World) : Loop env aoid itemName newOrders [] w (.ok 0) w
  | bad {sub rest e} (w : World) (h : alertFor env.py aoid itemName newOrders sub = .error e) :
      Loop env aoid itemName newOrders (sub :: rest) w (.error e) w
  | skip {sub rest w r w'} (h : alertFor env.py aoid itemName newOrders sub = .ok none)
      (hrest : Loop env aoid itemName newOrders rest w r w') :
      Loop env aoid itemName newOrders (sub :: rest) w r w'
  | fail {sub rest orders message e t} (w : World)
      (h : alertFor env.py aoid itemName newOrders sub = .ok (some (orders, message)))
      (hd : delivery env sub.player message w.tick = .fails e t) :
      Loop env aoid itemName newOrders (sub :: rest) w (.error e) { w with tick := t }
  | alert {sub rest orders message t w r w'}
      (h : alertFor env.py aoid itemName newOrders sub = .ok (some (orders, message)))
      (hd : (delivery env sub.player message w.tick).finish = some t)
      (hrest : Loop env aoid itemName newOrders rest
        { db := (delivery env sub.player message w.tick).db env sub.player message aoid w.db
          tick := t
          log := w.log ++
            (delivery env sub.player message w.tick).note sub.player message aoid orders } r w') :
      Loop env aoid itemName newOrders (sub :: rest) w (r.map (· + 1)) w'

/-- The loop of notify_subscribers does with each row what `Loop` says, by induction over
the rows. -/
theorem loop_notifyEach (env : Env) (aoid : ℤ) (itemName : String) (newOrders : Fingerprinted)
    (subs : List MarketSubscription) (w : World) :
    Loop env aoid itemName newOrders subs w ((notifyEach env aoid itemName newOrders subs).run w).1
      ((notifyEach env aoid itemName newOrders subs).run w).2 := by
  induction subs generalizing w with
  | nil => exact .done w
  | cons sub rest ih =>
    rw [notifyEach_cons]
    cases halert : alertFor env.py aoid itemName newOrders sub with
    | error e => exact .bad w halert
    | ok alert =>
      cases alert with
      | none => exact .skip halert (ih w)
      | some a =>
        obtain ⟨orders, message⟩ := a
        have hrun := @run_alertSubscriber env aoid sub.player message orders w
        change Loop env aoid itemName newOrders (sub :: rest) w
          ((alertSubscriber env aoid sub.player message orders >>= fun _ => do
            let notified ← notifyEach env aoid itemName newOrders rest
            return notified + 1).run w).1
          ((alertSubscriber env aoid sub.player message orders >>= fun _ => do
            let notified ← notifyEach env aoid itemName newOrders rest
            return notified + 1).run w).2
        cases hd : delivery env sub.player message w.tick with
        | fails e t =>
          rw [hd] at hrun
          rw [Coro.run_bind_error hrun]
          simpa [Delivery.db, Delivery.next, Delivery.note] using Loop.fail w halert hd
        | dropped t | told t | queued t =>
          have hresult : (delivery env sub.player message w.tick).result = .ok () := by rw [hd]; rfl
          have hfinish : (delivery env sub.player message w.tick).finish =
              some (delivery env sub.player message w.tick).next := by rw [hd]; rfl
          rw [hresult] at hrun
          rw [Coro.run_bind_ok hrun, Coro.run_bind_pure]
          exact .alert halert hfinish (ih _)

theorem mem_of_filterChecked {α : Type} {p : α → Option Bool} {l kept : List α}
    (h : filterChecked p l = some kept) {a : α} (ha : a ∈ kept) : a ∈ l := by
  induction l generalizing kept with
  | nil =>
    cases h
    cases ha
  | cons b rest ih =>
    simp only [filterChecked, Option.bind_eq_bind, Option.bind_eq_some_iff] at h
    obtain ⟨keep, _, others, hothers, h⟩ := h
    cases keep with
    | true =>
      cases h
      rcases List.mem_cons.mp ha with rfl | ha
      · exact List.mem_cons_self
      · exact List.mem_cons_of_mem b (ih hothers ha)
    | false =>
      cases h
      exact List.mem_cons_of_mem b (ih hothers ha)

section Loop
variable {aoid : ℤ} {itemName player fp : String} {newOrders : Fingerprinted}
  {subs : List MarketSubscription} {w w' : World} {r : Except PyErr ℕ}

/-- An alert lists new orders only. -/
theorem mem_of_alertFor {sub : MarketSubscription} {orders : Fingerprinted} {message : String}
    (h : alertFor env.py aoid itemName newOrders sub = .ok (some (orders, message)))
    {o : String × NewOrder} (ho : o ∈ orders) : o ∈ newOrders := by
  unfold alertFor at h
  obtain ⟨found, hfound, h⟩ := except_bind_eq_ok.mp h
  cases hm : matching env.py newOrders sub with
  | none =>
    rw [hm] at hfound
    cases hfound
  | some l =>
    rw [hm] at hfound
    cases hfound
    split at h
    · cases h
    · obtain ⟨text, _, h⟩ := except_bind_eq_ok.mp h
      cases h
      exact mem_of_filterChecked hm ho

theorem note_not_gone (d : Delivery) (message : String) (orders : Fingerprinted) (p : String) :
    ∀ e ∈ d.note p message aoid orders, ¬ Gone env.py aoid fp e := by
  cases d <;> simp [Delivery.note, Gone]

theorem note_not_mentions {d : Delivery} {message p : String} {orders : Fingerprinted}
    (h : p ≠ player ∨ fp ∉ orders.map Prod.fst) :
    ∀ e ∈ d.note p message aoid orders, ¬ Mentions player aoid fp e := by
  have hmention : ∀ sent, ¬ Mentions player aoid fp (.alerted p aoid orders sent) := by
    rintro sent ⟨hp, -, hfp⟩
    rcases h with h | h
    · exact h hp
    · exact h hfp
  cases d with
  | fails e t | dropped t => simp [Delivery.note]
  | told t =>
    intro e he
    rcases List.mem_cons.mp he with rfl | he
    · exact fun hm => hm
    · rw [List.mem_singleton.mp he]
      exact hmention true
  | queued t =>
    intro e he
    rw [List.mem_singleton.mp he]
    exact hmention false

/-- A player without a row, and an order that is not new, are not in the loop's alerts. -/
theorem Loop.silent (h : Loop env aoid itemName newOrders subs w r w')
    (hno : player ∉ subs.map MarketSubscription.player ∨ fp ∉ newOrders.map Prod.fst) :
    ∃ note, w'.log = w.log ++ note ∧
      ∀ e ∈ note, ¬ Mentions player aoid fp e ∧ ¬ Gone env.py aoid fp e := by
  induction h with
  | done w | bad w h | fail w h hd => exact ⟨[], by simp, by simp⟩
  | skip h hrest ih =>
    refine ih (hno.imp_left fun hp hmem => hp ?_)
    exact List.mem_cons_of_mem _ hmem
  | alert h hd hrest ih =>
    next sub rest orders message t w r w' =>
    obtain ⟨note, hlog, hnote⟩ := ih (hno.imp_left fun hp hmem => hp (List.mem_cons_of_mem _ hmem))
    refine ⟨(delivery env sub.player message w.tick).note sub.player message aoid orders ++ note,
      by rw [hlog, List.append_assoc], ?_⟩
    intro e he
    rcases List.mem_append.mp he with he | he
    · refine ⟨note_not_mentions ?_ e he, note_not_gone _ _ _ _ e he⟩
      refine hno.imp (fun hp heq => hp (by simp [heq])) fun hfp hmem => hfp ?_
      obtain ⟨o, ho, rfl⟩ := List.mem_map.mp hmem
      exact List.mem_map_of_mem (mem_of_alertFor h ho)
    · exact hnote e he

/-- The alert of a delivery is the first since the order was last gone, so the log
stays separated. -/
theorem separated_note {log : List Event} (d : Delivery) (message : String)
    (orders : Fingerprinted) (p : String)
    (hsep : Separated (Mentions player aoid fp) (Gone env.py aoid fp) log)
    (hpending : ¬ Pending (Mentions player aoid fp) (Gone env.py aoid fp) log) :
    Separated (Mentions player aoid fp) (Gone env.py aoid fp)
      (log ++ d.note p message aoid orders) := by
  cases d with
  | fails e t | dropped t => simpa [Delivery.note] using hsep
  | told t =>
    have htell : ∀ e ∈ [Event.tell p message],
        ¬ Mentions player aoid fp e ∧ ¬ Gone env.py aoid fp e := by simp [Mentions, Gone]
    rw [Delivery.note, List.append_cons, separated_concat]
    refine ⟨separated_append (fun e he => (htell e he).1) hsep, fun _ => ?_⟩
    rwa [pending_append htell]
  | queued t =>
    rw [Delivery.note, separated_concat]
    exact ⟨hsep, fun _ => hpending⟩

/-- With one row a player, no player is alerted twice in the loop. -/
theorem Loop.separated (h : Loop env aoid itemName newOrders subs w r w')
    (hrows : (subs.map MarketSubscription.player).Nodup)
    (hsep : Separated (Mentions player aoid fp) (Gone env.py aoid fp) w.log)
    (hpending : ¬ Pending (Mentions player aoid fp) (Gone env.py aoid fp) w.log) :
    Separated (Mentions player aoid fp) (Gone env.py aoid fp) w'.log := by
  induction h with
  | done w | bad w h | fail w h hd => exact hsep
  | skip h hrest ih => exact ih (List.nodup_cons.mp hrows).2 hsep hpending
  | alert h hd hrest ih =>
    next sub rest orders message t w r w' =>
    obtain ⟨hsub, hrows⟩ := List.nodup_cons.mp hrows
    have hfirst := separated_note (delivery env sub.player message w.tick) message orders sub.player
      hsep hpending
    by_cases hplayer : sub.player = player
    · subst hplayer
      obtain ⟨note, hlog, hnote⟩ := hrest.silent (Or.inl hsub)
      rw [hlog]
      exact separated_append (fun e he => (hnote e he).1) hfirst
    · refine ih hrows hfirst ?_
      rwa [pending_append fun e he =>
        ⟨note_not_mentions (Or.inl hplayer) e he, note_not_gone _ _ _ _ e he⟩]

/-- Where alertsEnd gives a tick, no call of the loop has failed, and the loop stops at
that tick. -/
theorem Loop.ends (h : Loop env aoid itemName newOrders subs w r w') {t : ℕ}
    (ht : alertsEnd env aoid itemName newOrders subs w.tick = some t) :
    r.isOk = true ∧ w'.tick = t := by
  induction h with
  | done w =>
    cases ht
    exact ⟨rfl, rfl⟩
  | bad w h => simp [alertsEnd, h] at ht
  | skip h hrest ih =>
    rw [alertsEnd, h] at ht
    exact ih ht
  | fail w h hd => simp [alertsEnd, h, hd, Delivery.finish] at ht
  | alert h hd hrest ih =>
    rw [alertsEnd, h] at ht
    dsimp only at ht
    rw [hd, Option.bind_some] at ht
    obtain ⟨hok, htick⟩ := ih ht
    refine ⟨?_, htick⟩
    obtain ⟨n, rfl⟩ := isOk_iff.mp hok
    rfl

/-- Once an alert of the pass is out, all its later calls go through, the replacement
of the seen set included. -/
def CleanAlerts (env : Env) (aoid : ℤ) (itemName : String) (newOrders : Fingerprinted)
    (book : Orders) : List MarketSubscription → ℕ → Prop
  | [], _ => True
  | sub :: rest, t =>
    match alertFor env.py aoid itemName newOrders sub with
    | .error _ => True
    | .ok none => CleanAlerts env aoid itemName newOrders book rest t
    | .ok (some (_, message)) =>
      match delivery env sub.player message t with
      | .fails _ _ => True
      | .dropped t' => CleanAlerts env aoid itemName newOrders book rest t'
      | .told t' | .queued t' =>
        ∃ t'', alertsEnd env aoid itemName newOrders rest (t' + 1) = some t'' ∧
          StoresSeen env book t''

/-- If a clean loop alerted the player to the order, it went through and the seen set
can be replaced. -/
theorem Loop.clean (h : Loop env aoid itemName newOrders subs w r w') {book : Orders}
    (hclean : CleanAlerts env aoid itemName newOrders book subs w.tick)
    (hbefore : ¬ Pending (Mentions player aoid fp) (Gone env.py aoid fp) w.log)
    (hafter : Pending (Mentions player aoid fp) (Gone env.py aoid fp) w'.log) :
    r.isOk = true ∧ StoresSeen env book w'.tick := by
  induction h with
  | done w | bad w h | fail w h hd => exact absurd hafter hbefore
  | skip h hrest ih =>
    rw [CleanAlerts, h] at hclean
    exact ih hclean hbefore hafter
  | alert h hd hrest ih =>
    next sub rest orders message t w r w' =>
    rw [CleanAlerts, h] at hclean
    dsimp only at hclean
    have hmap : r.isOk = true → (r.map (· + 1)).isOk = true := by
      intro hok
      obtain ⟨n, rfl⟩ := isOk_iff.mp hok
      rfl
    cases hdelivery : delivery env sub.player message w.tick with
    | fails e t' =>
      rw [hdelivery] at hd
      cases hd
    | dropped t' =>
      rw [hdelivery] at hd hclean ih
      cases hd
      obtain ⟨hok, hstores⟩ := ih hclean (by simpa [Delivery.note] using hbefore) hafter
      exact ⟨hmap hok, hstores⟩
    | told t' | queued t' =>
      rw [hdelivery] at hd hclean
      cases hd
      obtain ⟨t'', hend, hstores⟩ := hclean
      obtain ⟨hok, htick⟩ := hrest.ends hend
      exact ⟨hmap hok, htick ▸ hstores⟩

/-- A pass all of whose calls go through is clean. -/
theorem cleanAlerts_of_ends {book : Orders} {t t' : ℕ}
    (h : alertsEnd env aoid itemName newOrders subs t = some t') (hstores : StoresSeen env book t') :
    CleanAlerts env aoid itemName newOrders book subs t := by
  induction subs generalizing t with
  | nil => trivial
  | cons sub rest ih =>
    rw [alertsEnd] at h
    rw [CleanAlerts]
    rcases halert : alertFor env.py aoid itemName newOrders sub with e | _ | ⟨orders, message⟩
    · trivial
    · rw [halert] at h
      exact ih h
    · rw [halert] at h
      dsimp only at h ⊢
      cases hdelivery : delivery env sub.player message t with
      | fails e t₁ => trivial
      | dropped t₁ =>
        rw [hdelivery] at h
        exact ih h
      | told t₁ | queued t₁ =>
        rw [hdelivery] at h
        exact ⟨t', h, hstores⟩

end Loop

/-! One turn -/

/-- No second alert so far, and an order alerted since it was last gone is seen. -/
structure Tidy (env : Env) (player : String) (aoid : ℤ) (fp : String) (w : World) : Prop where
  separated : Separated (Mentions player aoid fp) (Gone env.py aoid fp) w.log
  pending : Pending (Mentions player aoid fp) (Gone env.py aoid fp) w.log →
    fp ∈ seenFingerprints w.db aoid

/-- Events that are neither alerts nor books of the item leave the log tidy. -/
theorem tidy_of_note {player fp : String} {aoid : ℤ} {w w' : World} {note : List Event}
    (h : Tidy env player aoid fp w) (hlog : w'.log = w.log ++ note)
    (hnote : ∀ e ∈ note, ¬ Mentions player aoid fp e ∧ ¬ Gone env.py aoid fp e)
    (hseen : seenFingerprints w'.db aoid = seenFingerprints w.db aoid) :
    Tidy env player aoid fp w' := by
  constructor
  · rw [hlog]
    exact separated_append (fun e he => (hnote e he).1) h.separated
  · rw [hlog, pending_append hnote, hseen]
    exact h.pending

def Unrelated (aoid : ℤ) : Write → Prop
  | .fetch a | .replaceSeen a | .alertTell _ a | .queueAlert _ a => a ≠ aoid
  | _ => True

/-- An unrelated call notes no alert and no book of the item and keeps its seen set. -/
theorem unmarked_of_steps {player fp : String} {aoid : ℤ} {w w' : World}
    (h : Steps (Unrelated aoid) w w') :
    (∃ note, w'.log = w.log ++ note ∧
      ∀ e ∈ note, ¬ Mentions player aoid fp e ∧ ¬ Gone env.py aoid fp e) ∧
      seenFingerprints w'.db aoid = seenFingerprints w.db aoid := by
  obtain ⟨_, note, hlog, hdb⟩ := h
  rcases hdb with ⟨hsame, hsilent⟩ | ⟨op, hop, heffect⟩
  · refine ⟨⟨note, hlog, ?_⟩, by rw [hsame]⟩
    intro e he
    have hplain := hsilent e he
    cases e <;> simp [plain, Mentions, Gone] at hplain ⊢
  · refine ⟨⟨note, hlog, ?_⟩, heffect.seen_eq ?_⟩
    · have hnote : ∀ {db db' : Db}, Effect op db db' note → ∀ e ∈ note,
          ¬ Mentions player aoid fp e ∧ ¬ Gone env.py aoid fp e := by
        intro db db' heffect e he
        cases heffect <;> simp at he
        case alertTell p a message orders =>
          rcases he with rfl | rfl
          · simp [Mentions, Gone]
          · exact ⟨fun hm => hop hm.2.1, fun hg => hg⟩
        case queueAlert p a message now orders =>
          rw [he]
          exact ⟨fun hm => hop hm.2.1, fun hg => hg⟩
        case fetch a book =>
          rw [he]
          exact ⟨fun hm => hm, fun hg => hop hg.1⟩
        all_goals
          rw [he]
          simp [Mentions, Gone]
      exact hnote heffect
    · rintro rfl
      exact hop rfl

theorem tidy_of_steps {player fp : String} {aoid : ℤ} {w w' : World}
    (h : Steps (Unrelated aoid) w w') (hw : Tidy env player aoid fp w) :
    Tidy env player aoid fp w' := by
  obtain ⟨⟨note, hlog, hnote⟩, hseen⟩ := unmarked_of_steps h
  exact tidy_of_note hw hlog hnote hseen

theorem tidy_of_keeps {α : Type} {A : Write → Prop} {player fp : String} {aoid : ℤ} {p : M α}
    (h : Keeps A p) (hA : ∀ op, A op → Unrelated aoid op) {w : World}
    (hw : Tidy env player aoid fp w) : Tidy env player aoid fp (p.run w).2 :=
  h.run_inv (fun _ _ hs => tidy_of_steps (hs.mono hA)) hw

/-- A player has one row for the item. -/
theorem subscribers_players (db : Db) (aoid : ℤ) :
    ((subscribers db aoid).map MarketSubscription.player).Nodup := by
  have hkeys : ((subscribers db aoid).map MarketSubscription.key).Nodup :=
    db.sound.sub_key.sublist List.filter_sublist
  apply List.Nodup.of_map fun player => (player, aoid)
  rw [List.map_map]
  convert hkeys using 1
  apply List.map_congr_left
  intro sub hsub
  have haoid : sub.aoid = aoid := by simpa using (List.mem_filter.mp hsub).2
  simp [MarketSubscription.key, haoid]

/-- If the pass comes to its subscribers, it is clean. -/
def CleanPass (env : Env) (watch : MarketWatch) (book : Orders) (db : Db) (t : ℕ) : Prop :=
  seenFingerprints db watch.aoid ≠ [] →
    newFingerprints env book (seenFingerprints db watch.aoid) ≠ [] → env.dbFault t = none →
      CleanAlerts env watch.aoid watch.name
        (newOrders env book (seenFingerprints db watch.aoid)) book
        (env.rowOrder t (subscribers db watch.aoid)) (t + 1)

variable {player fp : String}

/-- Alerts since the order was last gone are about an order of the book in hand. -/
structure Held (env : Env) (player : String) (aoid : ℤ) (fp : String) (book : Orders)
    (w : World) : Prop extends Tidy env player aoid fp w where
  listed : Pending (Mentions player aoid fp) (Gone env.py aoid fp) w.log →
    fp ∈ book.fingerprints env.py

/-- Storing the seen set restores the invariant: an order alerted to is in the book, and so in
the new set, or the set could not be stored. -/
theorem tidy_replaceSeen {aoid : ℤ} {book : Orders} {w : World}
    (hsep : Separated (Mentions player aoid fp) (Gone env.py aoid fp) w.log)
    (hlisted : Pending (Mentions player aoid fp) (Gone env.py aoid fp) w.log →
      fp ∈ book.fingerprints env.py)
    (hseen : Pending (Mentions player aoid fp) (Gone env.py aoid fp) w.log →
      fp ∈ seenFingerprints w.db aoid ∨ StoresSeen env book w.tick) :
    Tidy env player aoid fp
      ((replaceSeenFingerprints env aoid (book.fingerprints env.py)).run w).2 := by
  have hnote : ∀ e ∈ [Event.replaced aoid (book.fingerprints env.py)],
      ¬ Mentions player aoid fp e ∧ ¬ Gone env.py aoid fp e := by simp [Mentions, Gone]
  by_cases hstores : StoresSeen env book w.tick
  · rw [run_replaceSeen hstores]
    constructor
    · exact separated_append (fun e he => (hnote e he).1) hsep
    · rw [pending_append hnote, seen_replaceSeen, List.mem_dedup]
      exact hlisted
  · obtain ⟨e, hrun⟩ := @run_replaceSeen_error env aoid book w hstores
    rw [hrun]
    exact ⟨hsep, fun hp => (hseen hp).resolve_right hstores⟩

theorem run_subscribersForAoid (aoid : ℤ) (orders : Fingerprinted) {w : World}
    (h : env.dbFault w.tick = none) :
    (subscribersForAoid env aoid [.notified aoid orders]).run w =
      (.ok (env.rowOrder w.tick (subscribers w.db aoid)),
        { w.next with log := w.log ++ [.notified aoid orders] }) := run_query_ok h rfl

/-- The pass over the subscribers: what it leaves pending is listed, and is seen or can
be stored as seen. -/
theorem notifySubscribers_pass {aoid : ℤ} {name : String} {book : Orders}
    {orders : Fingerprinted} {w w' : World} {r : Except PyErr ℕ}
    (h : Held env player aoid fp book w)
    (hnew : ∀ fp ∈ orders.map Prod.fst,
      fp ∈ book.fingerprints env.py ∧ fp ∉ seenFingerprints w.db aoid)
    (hclean : env.dbFault w.tick = none → CleanAlerts env aoid name orders book
      (env.rowOrder w.tick (subscribers w.db aoid)) (w.tick + 1))
    (hrun : (notifySubscribers env aoid name orders).run w = (r, w')) :
    Separated (Mentions player aoid fp) (Gone env.py aoid fp) w'.log ∧
      (Pending (Mentions player aoid fp) (Gone env.py aoid fp) w'.log →
        fp ∈ book.fingerprints env.py ∧ (fp ∈ seenFingerprints w'.db aoid ∨
          r.isOk = true ∧ StoresSeen env book w'.tick)) := by
  unfold notifySubscribers at hrun
  cases hdb : env.dbFault w.tick with
  | some e =>
    have hfail : (subscribersForAoid env aoid [.notified aoid orders]).run w =
        (.error e, w.next) := by
      simp [subscribersForAoid, query, statement, hdb]
    rw [Coro.run_bind_error hfail] at hrun
    cases hrun
    exact ⟨h.separated, fun hp => ⟨h.listed hp, Or.inl (h.pending hp)⟩⟩
  | none =>
    rw [Coro.run_bind_ok (run_subscribersForAoid aoid orders hdb)] at hrun
    have hloop := loop_notifyEach env aoid name orders
      (env.rowOrder w.tick (subscribers w.db aoid))
      { w.next with log := w.log ++ [.notified aoid orders] }
    rw [hrun] at hloop
    have hnote : ∀ e ∈ [Event.notified aoid orders],
        ¬ Mentions player aoid fp e ∧ ¬ Gone env.py aoid fp e := by
      simp [Mentions, Gone]
    have hstart := separated_append (fun e he => (hnote e he).1) h.separated
    by_cases hfp : fp ∈ orders.map Prod.fst
    · obtain ⟨hlisted, hunseen⟩ := hnew fp hfp
      have hbefore : ¬ Pending (Mentions player aoid fp) (Gone env.py aoid fp)
          (w.log ++ [.notified aoid orders]) := by
        rw [pending_append hnote]
        exact fun hp => hunseen (h.pending hp)
      have hrows : ((env.rowOrder w.tick (subscribers w.db aoid)).map
          MarketSubscription.player).Nodup :=
        ((env.rowOrder_perm _ _).map _).nodup_iff.mpr (subscribers_players w.db aoid)
      refine ⟨hloop.separated hrows hstart hbefore, fun hp => ⟨hlisted, Or.inr ?_⟩⟩
      exact hloop.clean (hclean hdb) hbefore hp
    · obtain ⟨note, hlog, hsilent⟩ := hloop.silent (Or.inr hfp)
      have hkeeps : Keeps (AlertWrites aoid) (notifyEach env aoid name orders
          (env.rowOrder w.tick (subscribers w.db aoid))) := keeps_notifyEach (fun _ => id) _ _ _
      have hseen : seenFingerprints w'.db aoid = seenFingerprints w.db aoid := by
        have hsame := hkeeps.run_eq (f := fun db => seenFingerprints db aoid)
          (fun op db db' note hop heffect => heffect.seen_eq (by
            obtain ⟨p, rfl | rfl⟩ := hop <;> simp))
          { w.next with log := w.log ++ [.notified aoid orders] }
        rw [hrun] at hsame
        exact hsame
      refine ⟨?_, fun hp => ?_⟩
      · rw [hlog]
        exact separated_append (fun e he => (hsilent e he).1) hstart
      · rw [hlog, pending_append hsilent, pending_append hnote] at hp
        exact ⟨h.listed hp, Or.inl (hseen ▸ h.pending hp)⟩

/-- Detection leaves a tidy world if its pass is clean. -/
theorem tidy_detectNewOrders {watch : MarketWatch} {book : Orders} {w : World}
    (h : Held env player watch.aoid fp book w)
    (hclean : env.dbFault w.tick = none → CleanPass env watch book w.db (w.tick + 1)) :
    Tidy env player watch.aoid fp
      ((detectNewOrders env watch.aoid book watch.name).run w).2 := by
  rw [detectNewOrders_eq]
  cases hdb : env.dbFault w.tick with
  | some e =>
    have hfail : (getSeenFingerprints env watch.aoid).run w = (.error e, w.next) := by
      simp [getSeenFingerprints, query, statement, hdb]
    rw [Coro.run_bind_error hfail]
    exact ⟨h.separated, h.pending⟩
  | none =>
    rw [Coro.run_bind_ok (run_getSeen hdb)]
    have hnext : Held env player watch.aoid fp book w.next := ⟨⟨h.separated, h.pending⟩, h.listed⟩
    by_cases hskip : seenFingerprints w.db watch.aoid = [] ∨
        newFingerprints env book (seenFingerprints w.db watch.aoid) = []
    · rw [alertNew_of_skip hskip, Coro.bind_ret]
      exact tidy_replaceSeen hnext.separated hnext.listed fun hp => Or.inl (hnext.pending hp)
    · obtain ⟨hseen, hnew⟩ := not_or.mp hskip
      rw [alertNew_of_new hseen hnew, Coro.bind_assoc, Coro.run_bind]
      rcases hrun : (notifySubscribers env watch.aoid watch.name
        (newOrders env book (seenFingerprints w.db watch.aoid))).run w.next with ⟨r, w'⟩
      have hpass := notifySubscribers_pass hnext (fun fp hfp =>
        mem_newFingerprints.mp (mem_newFingerprints_of_newOrders hfp))
        (fun hfault => hclean hdb hseen hnew hfault) hrun
      obtain ⟨hsep, hpending⟩ := hpass
      cases r with
      | error e => exact ⟨hsep, fun hp => (hpending hp).2.resolve_right fun hok => by cases hok.1⟩
      | ok n =>
        exact tidy_replaceSeen hsep (fun hp => (hpending hp).1)
          fun hp => (hpending hp).2.imp_right And.right

/-- If the turn comes to alerting subscribers, its pass is clean. -/
def CleanTurn (env : Env) (t : Turn) : Prop :=
  ∀ book, env.getOrders t.start.tick t.watch.aoid = .ok (some book) →
    StoresSnapshot env t.watch book t.start.db (t.start.tick + 1) →
      env.dbFault (t.start.tick + 2) = none →
        CleanPass env t.watch book t.start.db (t.start.tick + 3)

/-- A book in hand that still lists what was alerted. -/
theorem held_of_fetched {aoid : ℤ} {book : Orders} {w : World}
    (h : Tidy env player aoid fp w) (w' : World) (hlog : w'.log = w.log ++ [.fetched aoid book])
    (hseen : seenFingerprints w'.db aoid = seenFingerprints w.db aoid) :
    Held env player aoid fp book w' := by
  have hpending : Pending (Mentions player aoid fp) (Gone env.py aoid fp) w'.log →
      Pending (Mentions player aoid fp) (Gone env.py aoid fp) w.log ∧
        fp ∈ book.fingerprints env.py := by
    rw [hlog, pending_concat]
    rintro (hm | ⟨hp, hgone⟩)
    · exact hm.elim
    · exact ⟨hp, by_contra fun hnot => hgone ⟨rfl, hnot⟩⟩
  refine ⟨⟨?_, fun hp => ?_⟩, fun hp => (hpending hp).2⟩
  · rw [hlog, separated_concat]
    exact ⟨h.separated, fun hm => hm.elim⟩
  · rw [hseen]
    exact h.pending (hpending hp).1

/-- Once the book is fetched and its snapshot stored, an alert still pending is about an order
of that book. -/
theorem held_of_stored {aoid now : ℤ} {book : Orders} {w : World} {db : Db} {watch : MarketWatch}
    (h : Tidy env player aoid fp w) (hsame : AfterSnapshot watch w.db db) (t : ℕ) :
    Held env player aoid fp book
      { db := db, tick := t, log := w.log ++ [.fetched aoid book, .snapshot aoid now] } := by
  have hheld : Held env player aoid fp book
      { db := db, tick := t, log := w.log ++ [.fetched aoid book] } :=
    held_of_fetched h _ rfl (hsame.seen aoid)
  have hnote : ∀ e ∈ [Event.snapshot aoid now],
      ¬ Mentions player aoid fp e ∧ ¬ Gone env.py aoid fp e := by simp [Mentions, Gone]
  have hlog : w.log ++ [.fetched aoid book, .snapshot aoid now] =
      (w.log ++ [.fetched aoid book]) ++ [.snapshot aoid now] := by simp
  refine ⟨tidy_of_note hheld.toTidy hlog hnote rfl, ?_⟩
  rw [hlog, pending_append hnote]
  exact hheld.listed

/-- A turn keeps the world tidy if, where it is about the item, it is clean. -/
theorem tidy_turn {aoid : ℤ} {t : Turn} (hclean : t.watch.aoid = aoid → CleanTurn env t)
    (h : Tidy env player aoid fp t.start) : Tidy env player aoid fp (t.stop env) := by
  obtain ⟨now, began, watch, w⟩ := t
  unfold Turn.stop
  dsimp only at *
  by_cases haoid : watch.aoid = aoid
  · subst haoid
    have hexamine : Tidy env player watch.aoid fp ((examine env now began watch).run w).2 := by
      rcases horders : env.getOrders w.tick watch.aoid with e | _ | book
      · rw [run_examine_error horders]
        exact ⟨h.separated, h.pending⟩
      · rw [run_examine_none horders]
        exact ⟨h.separated, h.pending⟩
      · by_cases hs : StoresSnapshot env watch book w.db (w.tick + 1)
        · obtain ⟨db, hsame, hrun⟩ := @run_examine_stored env now began watch w book horders hs
          rw [hrun, Coro.run_bind_pure]
          refine tidy_detectNewOrders (held_of_stored h hsame _) fun hdb => ?_
          have hpass := hclean rfl book horders hs hdb
          simpa only [CleanPass, subscribers, hsame.seen, hsame.subs] using hpass
        · obtain ⟨e, w', hrun, hdb, hlog⟩ := @run_examine_refused env now began watch w book horders hs
          rw [hrun]
          exact (held_of_fetched h w' hlog (by rw [hdb])).toTidy
    rw [pollItem_eq, Coro.run_bind]
    rcases hrun : (examine env now began watch).run w with ⟨e | updated, w'⟩
    · rw [hrun] at hexamine
      exact hexamine
    · rw [hrun] at hexamine
      dsimp only
      have hupdate : Keeps (fun op => op = .setLastPolled watch.aoid now)
          (updateLastPolled env watch.aoid now) := keeps_updateLastPolled rfl
      rw [Coro.run_bind_pure]
      refine tidy_of_keeps hupdate ?_ hexamine
      rintro op rfl
      trivial
  · have hpoll : Keeps (PollWrites watch.aoid now) (pollItem env now began watch) :=
      keeps_pollItem fun _ => id
    refine tidy_of_keeps hpoll ?_ h
    rintro op ((rfl | rfl | rfl | ⟨p, rfl | rfl⟩ | rfl) | rfl) <;>
      first | exact haoid | trivial

/-! Runs -/

theorem unrelated_of_background {aoid : ℤ} {op : Write} (h : Background op) :
    Unrelated aoid op := by
  cases op <;> trivial

/-- Every call of the turn's pass goes through, should it come to one. -/
def passEnds (env : Env) (t : Turn) : Bool :=
  match env.getOrders t.start.tick t.watch.aoid with
  | .ok (some book) =>
    match alertsEnd env t.watch.aoid t.watch.name
      (newOrders env book (seenFingerprints t.start.db t.watch.aoid))
      (env.rowOrder (t.start.tick + 3) (subscribers t.start.db t.watch.aoid))
      (t.start.tick + 4) with
    | some t' => decide (StoresSeen env book t')
    | none => false
  | _ => true

theorem cleanTurn_of_ends {t : Turn} (h : passEnds env t = true) : CleanTurn env t := by
  intro book hbook _ _ _ _ _
  rw [passEnds, hbook] at h
  dsimp only at h
  split at h
  · next t' hend => exact cleanAlerts_of_ends hend (of_decide_eq_true h)
  · cases h

/-- In every run whose polls of the item are clean, no subscriber is alerted twice to an
order without a poll in between that found the order gone. -/
theorem alert_once {moves : List (Move env)} {w : World} {aoid : ℤ} (hlog : w.log = [])
    (h : ∀ t ∈ runTurns env moves w, t.watch.aoid = aoid → CleanTurn env t)
    (player fp : String) :
    Separated (Mentions player aoid fp) (Gone env.py aoid fp) (play env moves w).log := by
  have hinit : Tidy env player aoid fp w := by
    constructor
    · rw [hlog]
      exact separated_nil
    · rw [hlog]
      exact fun hp => absurd hp pending_nil
  have hturn : ∀ t : Turn, (t.watch.aoid = aoid → CleanTurn env t) →
      Tidy env player aoid fp t.start → Tidy env player aoid fp (t.stop env) :=
    fun t => tidy_turn
  have hother : ∀ (α : Type) (p : M α) (w : World), Keeps Background p →
      Tidy env player aoid fp w → Tidy env player aoid fp (p.run w).2 :=
    fun _ p w hp hw => tidy_of_keeps hp (fun _ => unrelated_of_background) hw
  exact (play_invariant hturn hother h hinit).1.separated

/-! A chat sink that fails between two subscribers -/

def listed : Orders :=
  { sellOrders := [⟨.num (.int 500), .num (.int 10), .num (.int 1), .str "Dan"⟩], buyOrders := [] }

def flaky : Env :=
  { Env.calm with
    getOrders := fun _ _ => .ok (some listed)
    chat := { isOnline := some fun tick player =>
                if player = "carol" ∧ tick < 20 then .error .connection else .ok false } }

def subscribed : Db where
  toTables :=
    { users := [⟨"bob", false⟩, ⟨"carol", false⟩]
      watch := [⟨1, "Ring", 1, none, 0, none, false⟩]
      subscriptions := [{ player := "bob", aoid := 1, createdAt := 0 },
        { player := "carol", aoid := 1, createdAt := 0 }]
      seenOrders := [⟨1, "sell|400|10|1|Dan"⟩]
      settings := [⟨"HistoryRetentionDays", "30", .int⟩, ⟨"WatchExpireDays", "30", .int⟩,
        ⟨"PollIntervalMinutes", "60", .int⟩, ⟨"PollBatchSize", "10", .int⟩,
        ⟨"LogBackgroundToPrivateChannel", "false", .bool⟩] }
  sound := by constructor <;> simp [Keyed, Refers, MarketSubscription.key]

def sold : Orders :=
  { sellOrders := [⟨.num (.int 600), .num (.int 10), .num (.int 1), .str "Eve"⟩], buyOrders := [] }

/-- Ten minutes pass with every call, and Dan's order is gone in between. -/
def relisted : Env :=
  { Env.calm with
    clock := fun tick => tick * (10 * PyNumber.usPerMinute)
    getOrders := fun tick _ => .ok (some (if 20 ≤ tick ∧ tick < 40 then sold else listed))
    chat := { isOnline := some fun _ _ => .ok false } }

/-- Three cycles alert Bob to Dan's order twice, and the second finds it gone. -/
theorem bob_alerted_once :
    ((play relisted [.cycle, .cycle, .cycle] { db := subscribed }).log.countP fun e =>
      decide (Mentions "bob" 1 "sell|500|10|1|Dan" e)) = 2 ∧
    Separated (Mentions "bob" 1 "sell|500|10|1|Dan") (Gone relisted.py 1 "sell|500|10|1|Dan")
      (play relisted [.cycle, .cycle, .cycle] { db := subscribed }).log := by
  have hends : ∀ t ∈ runTurns relisted [.cycle, .cycle, .cycle] { db := subscribed },
      passEnds relisted t = true := by decide +kernel
  exact ⟨by decide +kernel, alert_once rfl (fun t ht _ => cleanTurn_of_ends (hends t ht)) _ _⟩

/-- The first cycle breaks off after Bob's alert, and the second alerts him again. -/
theorem bob_alerted_twice : ¬ Separated (Mentions "bob" 1 "sell|500|10|1|Dan")
    (Gone flaky.py 1 "sell|500|10|1|Dan")
    (play flaky [.cycle, .cycle] { db := subscribed }).log := by
  intro h
  have hfp : "sell|500|10|1|Dan" ∈ listed.fingerprints flaky.py := by decide
  let alert : Event := .alerted "bob" 1 (newOrders flaky listed ["sell|400|10|1|Dan"]) false
  let start : List Event := [.fetched 1 listed, .snapshot 1 0,
    .notified 1 (newOrders flaky listed ["sell|400|10|1|Dan"])]
  obtain ⟨e, he, hgone⟩ := h start alert start alert
    [.alerted "carol" 1 (newOrders flaky listed ["sell|400|10|1|Dan"]) false,
      .replaced 1 ["sell|500|10|1|Dan"]] rfl ⟨rfl, rfl, by decide⟩ ⟨rfl, rfl, by decide⟩
  simp only [start, List.mem_cons, List.not_mem_nil, or_false] at he
  rcases he with rfl | rfl | rfl
  · exact hgone.2 hfp
  · exact hgone
  · exact hgone

end AoMarket.AlertOnce
