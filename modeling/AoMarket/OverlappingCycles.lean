import AoMarket.AlertOnce
import AoMarket.CycleSections
import Mathlib.Algebra.Order.Group.Abs
import Mathlib.Tactic.Linarith

/-!
What overlapping poll cycles double. Disciplined schedules double nothing: no
subscriber is alerted twice to an order, and an item's snapshots are further apart
than the poll interval. Two cycles that both read the due list first double both.
-/

namespace AoMarket.OverlappingCycles

open Coroutine Interleaving Relational Models Database OrderBook PyNumber PyText Environment
  MarketRepo SettingsRepo Polling Writes ServiceWrites PollTurn AlertOnce PollProgress Separation
  Sections CycleSections

variable {env : Env} {aoid : ℤ}

/-- What the calls of a part of a turn keep, and the other cycles keep, holds throughout. -/
theorem under_keeps {α : Type} {W : Write → Prop} {A I E : World → Prop} {p : M α} {w : World}
    (hp : Keeps W p) (hsteps : ∀ {w w'}, Steps W w w' → A w → A w')
    (hapart : ∀ {w w'}, Apart aoid w w' → A w → A w') (hI : ∀ {w}, A w → I w)
    (hE : ∀ {w}, A w → E w) (hw : A w) : Under (Apart aoid) I (fun _ => A) E p w := by
  have halways : p.Always A (fun _ _ w' => A w') fun _ => True :=
    Coro.Always.mono hp.always (fun _ _ => trivial) (fun _ _ _ hA hstep => hsteps hstep hA)
      fun _ => id
  exact (Under.invariant halways (fun _ _ => hapart) (fun _ => hI) (fun _ => hE) hw).mono
    fun _ _ h => h.2

/-! Alerts -/

section Alerts
variable {player fp : String}

theorem not_marks_of_not_concerns {note : List Event} (h : ∀ e ∈ note, ¬ Concerns aoid e) :
    ∀ e ∈ note, ¬ Mentions player aoid fp e ∧ ¬ Gone env.py aoid fp e := by
  intro e he
  have hnot := h e he
  cases e with
  | alerted p a orders sent => exact ⟨fun hm => hnot hm.2.1, fun hg => hg⟩
  | fetched a book => exact ⟨fun hm => hm, fun hg => hnot hg.1⟩
  | _ => exact ⟨fun hm => hm, fun hg => hg⟩

theorem tidy_apart {w w' : World} (h : Apart aoid w w') (hw : Tidy env player aoid fp w) :
    Tidy env player aoid fp w' := by
  obtain ⟨note, hlog, hnote⟩ := h.log
  exact tidy_of_note hw hlog (not_marks_of_not_concerns hnote) h.seen

theorem held_apart {book : Orders} {w w' : World} (h : Apart aoid w w')
    (hw : Held env player aoid fp book w) : Held env player aoid fp book w' := by
  obtain ⟨note, hlog, hnote⟩ := h.log
  refine ⟨tidy_apart h hw.toTidy, ?_⟩
  rw [hlog, pending_append (not_marks_of_not_concerns hnote)]
  exact hw.listed

theorem held_of_steps {book : Orders} {w w' : World} (h : Steps (Unrelated aoid) w w')
    (hw : Held env player aoid fp book w) : Held env player aoid fp book w' := by
  obtain ⟨⟨note, hlog, hnote⟩, hseen⟩ := unmarked_of_steps h
  refine ⟨tidy_of_note hw.toTidy hlog hnote hseen, ?_⟩
  rw [hlog, pending_append hnote]
  exact hw.listed

theorem under_updateLastPolled {now : ℤ} {w : World} (h : Tidy env player aoid fp w) :
    Under (Apart aoid)
      (fun w => Separated (Mentions player aoid fp) (Gone env.py aoid fp) w.log)
      (fun _ => Tidy env player aoid fp) (fun _ => True) (updateLastPolled env aoid now) w := by
  have hupdate : Keeps (fun op => op = .setLastPolled aoid now)
      (updateLastPolled env aoid now) := keeps_updateLastPolled rfl
  refine under_keeps hupdate ?_ tidy_apart (fun h => h.separated) (fun _ => trivial) h
  intro w w' hsteps hw
  exact tidy_of_steps (hsteps.mono (by rintro op rfl; trivial)) hw

/-- In the middle of a pass: an alert that is pending lists an order of the book, and was
sent before this pass or to a subscriber the pass is done with. -/
structure Alerting (env : Env) (player : String) (aoid : ℤ) (fp : String) (book : Orders)
    (seen : List String) (rest : List MarketSubscription) (w : World) : Prop where
  separated : Separated (Mentions player aoid fp) (Gone env.py aoid fp) w.log
  listed : Pending (Mentions player aoid fp) (Gone env.py aoid fp) w.log →
    fp ∈ book.fingerprints env.py
  stored : seenFingerprints w.db aoid = seen
  pending : Pending (Mentions player aoid fp) (Gone env.py aoid fp) w.log →
    fp ∈ seen ∨ player ∉ rest.map MarketSubscription.player

section Pass
variable {book : Orders} {seen : List String} {sub : MarketSubscription}
  {rest : List MarketSubscription} {w w' : World}

theorem alerting_of_note {note : List Event}
    (h : Alerting env player aoid fp book seen rest w) (hlog : w'.log = w.log ++ note)
    (hnote : ∀ e ∈ note, ¬ Mentions player aoid fp e ∧ ¬ Gone env.py aoid fp e)
    (hseen : seenFingerprints w'.db aoid = seenFingerprints w.db aoid) :
    Alerting env player aoid fp book seen rest w' := by
  constructor
  · rw [hlog]
    exact separated_append (fun e he => (hnote e he).1) h.separated
  · rw [hlog, pending_append hnote]
    exact h.listed
  · exact hseen.trans h.stored
  · rw [hlog, pending_append hnote]
    exact h.pending

theorem alerting_apart (h : Apart aoid w w')
    (hw : Alerting env player aoid fp book seen rest w) :
    Alerting env player aoid fp book seen rest w' := by
  obtain ⟨note, hlog, hnote⟩ := h.log
  exact alerting_of_note hw hlog (not_marks_of_not_concerns hnote) h.seen

theorem alerting_tail (h : Alerting env player aoid fp book seen (sub :: rest) w) :
    Alerting env player aoid fp book seen rest w :=
  ⟨h.separated, h.listed, h.stored,
    fun hp => (h.pending hp).imp_right fun hnot hmem => hnot (List.mem_cons_of_mem _ hmem)⟩

/-- The subscriber at hand is alerted to new orders. -/
theorem alerting_alerted {orders : Fingerprinted} (message : String) (d : Delivery)
    (h : Alerting env player aoid fp book seen (sub :: rest) w)
    (hsub : sub.player ∉ rest.map MarketSubscription.player)
    (hnew : ∀ fp ∈ orders.map Prod.fst, fp ∈ book.fingerprints env.py ∧ fp ∉ seen)
    (hlog : w'.log = w.log ++ d.note sub.player message aoid orders)
    (hseen : seenFingerprints w'.db aoid = seenFingerprints w.db aoid) :
    Alerting env player aoid fp book seen rest w' := by
  by_cases hmark : sub.player ≠ player ∨ fp ∉ orders.map Prod.fst
  · refine alerting_of_note (alerting_tail h) hlog (fun e he => ?_) hseen
    exact ⟨note_not_mentions hmark e he, note_not_gone d message orders sub.player e he⟩
  · simp only [not_or, not_not] at hmark
    obtain ⟨rfl, hfp⟩ := hmark
    obtain ⟨hlisted, hunseen⟩ := hnew fp hfp
    have hbefore : ¬ Pending (Mentions sub.player aoid fp) (Gone env.py aoid fp) w.log := by
      intro hp
      rcases h.pending hp with hmem | hnot
      · exact hunseen hmem
      · exact hnot (by simp)
    constructor
    · rw [hlog]
      exact separated_note d message orders sub.player h.separated hbefore
    · exact fun _ => hlisted
    · exact hseen.trans h.stored
    · exact fun _ => Or.inr hsub

/-- Alerting one subscriber while the other cycles leave the item alone: it is the first alert
since the order was last gone. -/
theorem under_alertSubscriber {orders : Fingerprinted} {message : String}
    (h : Alerting env player aoid fp book seen (sub :: rest) w)
    (hsub : sub.player ∉ rest.map MarketSubscription.player)
    (hnew : ∀ fp ∈ orders.map Prod.fst, fp ∈ book.fingerprints env.py ∧ fp ∉ seen) :
    Under (Apart aoid)
      (fun w => Separated (Mentions player aoid fp) (Gone env.py aoid fp) w.log)
      (fun _ => Alerting env player aoid fp book seen rest) (fun _ => True)
      (alertSubscriber env aoid sub.player message orders) w := by
  refine Under.bind (Under.mono (under_keeps (keeps_isOnline sub.player)
    (fun hs => alerting_apart (apart_of_steps hs)) alerting_apart (fun h => h.separated)
    (fun _ => trivial) h) fun online w hw => ?_)
  cases online with
  | true =>
    rw [if_pos rfl]
    unfold sendTell
    cases hsend : env.chat.sendTell with
    | none => exact alerting_tail hw
    | some send =>
      refine Under.act hw.separated (fun w' a t hapart hrun => ?_) fun _ _ _ _ _ => trivial
      have hpass := alerting_apart hapart hw
      dsimp only at hrun
      split at hrun
      · cases hrun
      · cases hrun
        exact alerting_alerted message (.told 0) hpass hsub hnew rfl rfl
  | false =>
    rw [if_neg (by simp)]
    refine under_statement hw.separated (fun w' a db note hapart _ hf => ?_) fun _ _ => trivial
    obtain ⟨_, _, hf⟩ := except_bind_eq_ok.mp hf
    cases hf
    exact alerting_alerted message (.queued 0) (alerting_apart hapart hw) hsub hnew rfl rfl

/-- The pass over the subscribers, each of whom has one row. -/
theorem under_notifyEach {itemName : String} {newOrders : Fingerprinted}
    (h : Alerting env player aoid fp book seen rest w)
    (hrows : (rest.map MarketSubscription.player).Nodup)
    (hnew : ∀ fp ∈ newOrders.map Prod.fst, fp ∈ book.fingerprints env.py ∧ fp ∉ seen) :
    Under (Apart aoid)
      (fun w => Separated (Mentions player aoid fp) (Gone env.py aoid fp) w.log)
      (fun _ => Alerting env player aoid fp book seen []) (fun _ => True)
      (notifyEach env aoid itemName newOrders rest) w := by
  induction rest generalizing w with
  | nil => exact h
  | cons sub rest ih =>
    obtain ⟨hsub, hrows⟩ := List.nodup_cons.mp hrows
    rw [notifyEach_cons]
    refine Under.bind (Under.ofExcept (fun alert halert => ?_) fun _ _ => trivial)
    cases alert with
    | none => exact ih (alerting_tail h) hrows
    | some a =>
      obtain ⟨orders, message⟩ := a
      have hlisted : ∀ fp ∈ orders.map Prod.fst, fp ∈ book.fingerprints env.py ∧ fp ∉ seen := by
        intro fp hfp
        obtain ⟨o, ho, rfl⟩ := List.mem_map.mp hfp
        exact hnew _ (List.mem_map_of_mem (mem_of_alertFor halert ho))
      refine Under.bind (Under.mono (under_alertSubscriber h hsub hlisted) fun _ w hw => ?_)
      exact Under.bind (Under.mono (ih hw hrows) fun _ _ hdone => hdone)

theorem alerting_of_held (h : Held env player aoid fp book w) :
    Alerting env player aoid fp book (seenFingerprints w.db aoid) rest w :=
  ⟨h.separated, h.listed, rfl, fun hp => Or.inl (h.pending hp)⟩

/-- The pass over the subscribers of the item. -/
theorem under_alertNew {itemName : String}
    (h : ∀ rest, Alerting env player aoid fp book seen rest w) :
    Under (Apart aoid)
      (fun w => Separated (Mentions player aoid fp) (Gone env.py aoid fp) w.log)
      (fun _ => Alerting env player aoid fp book seen []) (fun _ => True)
      (alertNew env aoid book itemName seen) w := by
  by_cases hskip : seen = [] ∨ newFingerprints env book seen = []
  · rw [alertNew_of_skip hskip]
    exact h []
  · obtain ⟨hseen, hnew⟩ := not_or.mp hskip
    rw [alertNew_of_new hseen hnew]
    refine Under.bind (Under.bind ?_)
    refine under_query (h []).separated (fun w' subs hapart hf => ?_) fun _ _ => trivial
    cases hf
    have hrows : ((env.rowOrder w'.tick (subscribers w'.db aoid)).map
        MarketSubscription.player).Nodup :=
      ((env.rowOrder_perm _ _).map _).nodup_iff.mpr (subscribers_players w'.db aoid)
    refine under_notifyEach ?_ hrows fun fp hfp =>
      mem_newFingerprints.mp (mem_newFingerprints_of_newOrders hfp)
    refine alerting_of_note (alerting_apart hapart (h _)) rfl ?_ rfl
    simp [Mentions, Gone]

/-- The seen set is replaced once the pass is done. -/
theorem under_replaceSeen (h : Alerting env player aoid fp book seen [] w) :
    Under (Apart aoid)
      (fun w => Separated (Mentions player aoid fp) (Gone env.py aoid fp) w.log)
      (fun _ => Tidy env player aoid fp) (fun _ => True)
      (replaceSeenFingerprints env aoid (book.fingerprints env.py)) w := by
  refine under_statement h.separated (fun w' a db note hapart _ hf => ?_) fun _ _ => trivial
  obtain ⟨_, _, hf⟩ := except_bind_eq_ok.mp hf
  cases hf
  have hpass := alerting_apart hapart h
  have hnote : ∀ e ∈ [Event.replaced aoid (book.fingerprints env.py)],
      ¬ Mentions player aoid fp e ∧ ¬ Gone env.py aoid fp e := by simp [Mentions, Gone]
  constructor
  · exact separated_append (fun e he => (hnote e he).1) hpass.separated
  · dsimp only
    rw [pending_append hnote, seen_replaceSeen, List.mem_dedup]
    exact hpass.listed

/-- The detection as a whole keeps the alerts separated, while other cycles leave the
item alone. -/
theorem under_detectNewOrders {itemName : String} (h : Held env player aoid fp book w) :
    Under (Apart aoid)
      (fun w => Separated (Mentions player aoid fp) (Gone env.py aoid fp) w.log)
      (fun _ => Tidy env player aoid fp) (fun _ => True)
      (detectNewOrders env aoid book itemName) w := by
  rw [detectNewOrders_eq]
  refine Under.bind (under_query h.separated (fun w' seen hapart hf => ?_) fun _ _ => trivial)
  cases hf
  have hheld := held_apart hapart h
  have hpass : ∀ rest, Alerting env player aoid fp book (seenFingerprints w'.db aoid) rest
      { w'.next with log := w'.log ++ [] } := by
    intro rest
    exact alerting_of_note (alerting_of_held hheld) rfl (by simp) rfl
  exact Under.bind (Under.mono (under_alertNew hpass) fun _ _ hdone => under_replaceSeen hdone)

end Pass

/-- Alerts of one order to one player, kept up by the cycles. -/
def alertUpkeep (env : Env) (player : String) (aoid : ℤ) (fp : String) : Upkeep env aoid where
  settled := Tidy env player aoid fp
  safe w := Separated (Mentions player aoid fp) (Gone env.py aoid fp) w.log
  settled_apart := tidy_apart
  safe_apart := by
    intro w w' h hw
    obtain ⟨note, hlog, hnote⟩ := h.log
    rw [hlog]
    exact separated_append (fun e he =>
      (@not_marks_of_not_concerns env aoid player fp note hnote e he).1) hw
  safe_of_settled h := h.separated
  turn_none hw _ := under_updateLastPolled hw
  turn_book := by
    rintro now began watch book w rfl hw _
    have hfetched : Held env player watch.aoid fp book
        { w.next with log := w.log ++ [.fetched watch.aoid book] } := held_of_fetched hw _ rfl rfl
    have hsnapshot : Keeps (fun op => op = .insertHistory watch.aoid now)
        (snapshot env now began watch.aoid book watch.ql) := by
      apply keeps_snapshot
      rfl
    refine Under.mono (under_keeps hsnapshot ?_ held_apart (fun h => h.separated)
      (fun h => h.toTidy) hfetched) fun _ w hheld => ?_
    · intro w w' hsteps hheld
      exact held_of_steps (hsteps.mono (by rintro op rfl; trivial)) hheld
    · exact Under.bind (Under.mono (under_detectNewOrders hheld) fun _ _ h =>
        under_updateLastPolled h)

end Alerts

/-! Snapshots -/

/-- Any two snapshots of the item are from cycles further apart than `gap`. -/
def Spaced (gap aoid : ℤ) (log : List Event) : Prop :=
  log.Pairwise fun e e' => ∀ n m, e = .snapshot aoid n → e' = .snapshot aoid m → gap < |m - n|

section Snapshots
variable {gap : ℤ} {log note : List Event}

theorem spaced_append (h : Spaced gap aoid log) (hnote : ∀ n, Event.snapshot aoid n ∉ note) :
    Spaced gap aoid (log ++ note) := by
  refine List.pairwise_append.mpr ⟨h, ?_, ?_⟩
  · apply List.pairwise_of_forall_mem_list
    rintro e he e' _ n m rfl _
    exact absurd he (hnote n)
  · rintro e _ e' he' n m _ rfl
    exact absurd he' (hnote m)

theorem mem_snapshot_append {n : ℤ} (hnote : ∀ n, Event.snapshot aoid n ∉ note) :
    Event.snapshot aoid n ∈ log ++ note ↔ Event.snapshot aoid n ∈ log := by
  simp [hnote n]

theorem Apart.snapshots {w w' : World} (h : Apart aoid w w') :
    ∃ note, w'.log = w.log ++ note ∧ ∀ n, Event.snapshot aoid n ∉ note := by
  obtain ⟨note, hlog, hnote⟩ := h.log
  exact ⟨note, hlog, fun n hn => hnote _ hn rfl⟩

theorem spaced_concat {now : ℤ} (h : Spaced gap aoid log)
    (hnew : ∀ n, Event.snapshot aoid n ∈ log → n + gap < now) :
    Spaced gap aoid (log ++ [.snapshot aoid now]) := by
  refine List.pairwise_append.mpr ⟨h, List.pairwise_singleton _ _, ?_⟩
  rintro e he e' he' n m rfl rfl
  obtain rfl : m = now := by simpa using he'
  have hlater := hnew n he
  have habs := le_abs_self (m - n)
  omega

end Snapshots

structure Paced (env : Env) (aoid interval : ℤ) (w : World) : Prop where
  setting : readSetting env w.db "PollIntervalMinutes" = .ok (.int interval)
  spaced : Spaced (interval * usPerMinute) aoid w.log
  polled : ∀ n, Event.snapshot aoid n ∈ w.log → ∀ r ∈ rowsOf w.db aoid,
    ∃ t, r.lastPolled = some t ∧ n ≤ t

/-- In the item's turn, before the snapshot: it is not too early for one. -/
structure Ready (env : Env) (aoid interval now : ℤ) (w : World) : Prop
    extends Paced env aoid interval w where
  due : rowsOf w.db aoid ≠ [] → ∀ n, Event.snapshot aoid n ∈ w.log →
    n + interval * usPerMinute < now

structure Stored (env : Env) (aoid interval now : ℤ) (w : World) : Prop where
  setting : readSetting env w.db "PollIntervalMinutes" = .ok (.int interval)
  spaced : Spaced (interval * usPerMinute) aoid w.log
  latest : ∀ n, Event.snapshot aoid n ∈ w.log → n ≤ now

section Pace
variable {interval now : ℤ} {w w' : World}

theorem setting_apart (h : Apart aoid w w')
    (hw : readSetting env w.db "PollIntervalMinutes" = .ok (.int interval)) :
    readSetting env w'.db "PollIntervalMinutes" = .ok (.int interval) := by
  unfold readSetting at *
  rwa [h.settings]

theorem paced_apart (h : Apart aoid w w') (hw : Paced env aoid interval w) :
    Paced env aoid interval w' := by
  obtain ⟨note, hlog, hnote⟩ := Apart.snapshots h
  refine ⟨setting_apart h hw.setting, ?_, fun n hn r hr => ?_⟩
  · rw [hlog]
    exact spaced_append hw.spaced hnote
  · rw [hlog, mem_snapshot_append hnote] at hn
    rcases h.rows with hsame | hnone
    · exact hw.polled n hn r (hsame ▸ hr)
    · rw [hnone] at hr
      cases hr

theorem ready_apart (h : Apart aoid w w') (hw : Ready env aoid interval now w) :
    Ready env aoid interval now w' := by
  obtain ⟨note, hlog, hnote⟩ := Apart.snapshots h
  refine ⟨paced_apart h hw.toPaced, fun hrows n hn => ?_⟩
  rw [hlog, mem_snapshot_append hnote] at hn
  refine hw.due ?_ n hn
  rcases h.rows with hsame | hnone
  · rwa [hsame] at hrows
  · exact absurd hnone hrows

theorem stored_apart (h : Apart aoid w w') (hw : Stored env aoid interval now w) :
    Stored env aoid interval now w' := by
  obtain ⟨note, hlog, hnote⟩ := Apart.snapshots h
  refine ⟨setting_apart h hw.setting, ?_, fun n hn => ?_⟩
  · rw [hlog]
    exact spaced_append hw.spaced hnote
  · rw [hlog, mem_snapshot_append hnote] at hn
    exact hw.latest n hn

/-- An item that is still due is ready for a snapshot. -/
theorem ready_of_due (hw : Paced env aoid interval w)
    (hdue : stillDue env now aoid w.db = true) : Ready env aoid interval now w := by
  refine ⟨hw, fun hrows n hn => ?_⟩
  obtain ⟨r, hr⟩ := List.exists_mem_of_ne_nil _ hrows
  obtain ⟨t, hlast, hle⟩ := hw.polled n hn r hr
  unfold stillDue at hdue
  rw [hw.setting] at hdue
  have hbefore := List.all_eq_true.mp hdue r hr
  simp only [polledBefore, hlast, decide_eq_true_eq] at hbefore
  omega

/-- The snapshot needs the item's row. -/
theorem under_snapshot {began : Option ℕ} {book : Orders} {ql : ℤ} (hinterval : 0 ≤ interval)
    (h : Ready env aoid interval now w) :
    Under (Apart aoid) (fun w => Spaced (interval * usPerMinute) aoid w.log)
      (fun _ => Stored env aoid interval now) (Paced env aoid interval)
      (snapshot env now began aoid book ql) w := by
  refine Under.bind (Under.ofExcept (fun s _ => ?_) fun _ _ => h.toPaced)
  refine under_statement h.spaced (fun w' a db note hapart _ hf => ?_) fun w' hapart => ?_
  · obtain ⟨_, _, hf⟩ := except_bind_eq_ok.mp hf
    obtain ⟨_, _, hf⟩ := except_bind_eq_ok.mp hf
    obtain ⟨_, _, hf⟩ := except_bind_eq_ok.mp hf
    obtain ⟨_, _, hf⟩ := except_bind_eq_ok.mp hf
    obtain ⟨_, hrow, hf⟩ := except_bind_eq_ok.mp hf
    cases hf
    have hready := ready_apart hapart h
    have hinsert := orRefused_eq_ok hrow
    have haoid := Db.insertHistory_accepts.mp ⟨db, hinsert⟩
    have hrows : rowsOf w'.db aoid ≠ [] := by
      obtain ⟨r, hr, heq⟩ := List.mem_map.mp haoid
      exact List.ne_nil_of_mem (List.mem_filter.mpr ⟨hr, by simpa using heq⟩)
    have hsettings : db.settings = w'.db.settings := by rw [Db.insertHistory_eq_some hinsert]
    have hgap : 0 ≤ interval * usPerMinute := mul_nonneg hinterval (by decide)
    constructor
    · have hsetting := hready.setting
      unfold readSetting at *
      rwa [hsettings]
    · exact spaced_concat hready.spaced (hready.due hrows)
    · intro n hn
      rcases List.mem_append.mp hn with hn | hn
      · have hbefore := hready.due hrows n hn
        omega
      · obtain rfl : n = now := by simpa using hn
        exact le_refl _
  · exact paced_apart (Apart.next w') (paced_apart hapart h.toPaced)

theorem stored_of_steps (h : Steps (fun op => PassWrites aoid op ∨ op = .replaceSeen aoid) w w')
    (hw : Stored env aoid interval now w) : Stored env aoid interval now w' := by
  obtain ⟨_, note, hlog, hdb⟩ := h
  have hnote : ∀ n, Event.snapshot aoid n ∉ note := by
    intro n hn
    rcases hdb with ⟨_, hsilent⟩ | ⟨op, hop, heffect⟩
    · exact absurd (hsilent _ hn) (by simp [plain])
    · generalize w.db = db, w'.db = db' at heffect
      rcases hop with (rfl | ⟨p, rfl | rfl⟩) | rfl <;> cases heffect <;> simp at hn
  have hsettings : w'.db.settings = w.db.settings := by
    rcases hdb with ⟨hsame, _⟩ | ⟨op, hop, heffect⟩
    · rw [hsame]
    · apply heffect.settings_eq
      rcases hop with (rfl | ⟨p, rfl | rfl⟩) | rfl <;> simp
  refine ⟨?_, ?_, fun n hn => ?_⟩
  · have hsetting := hw.setting
    unfold readSetting at *
    rwa [hsettings]
  · rw [hlog]
    exact spaced_append hw.spaced hnote
  · rw [hlog, mem_snapshot_append hnote] at hn
    exact hw.latest n hn

/-- After the snapshot the detection keeps the pace of the item's snapshots. -/
theorem under_detectNewOrders_stored {book : Orders} {itemName : String}
    (h : Stored env aoid interval now w) :
    Under (Apart aoid) (fun w => Spaced (interval * usPerMinute) aoid w.log)
      (fun _ => Stored env aoid interval now) (fun _ => True)
      (detectNewOrders env aoid book itemName) w := by
  have hkeeps : Keeps (fun op => PassWrites aoid op ∨ op = .replaceSeen aoid)
      (detectNewOrders env aoid book itemName) := by
    rw [detectNewOrders_eq]
    refine Coro.Frames.bind (keeps_getSeenFingerprints aoid) fun seen => ?_
    refine Coro.Frames.bind ?_ fun _ => keeps_replaceSeenFingerprints (Or.inr rfl) _
    exact Coro.Frames.mono (keeps_alertNew aoid book itemName seen) fun _ _ hs =>
      hs.mono fun _ => Or.inl
  exact under_keeps hkeeps stored_of_steps stored_apart (fun h => h.spaced) (fun _ => trivial) h

/-- The row now carries a time no snapshot is later than. -/
theorem paced_setLastPolled
    (hsetting : readSetting env w.db "PollIntervalMinutes" = .ok (.int interval))
    (hspaced : Spaced (interval * usPerMinute) aoid w.log)
    (hlatest : rowsOf w.db aoid ≠ [] → ∀ n, Event.snapshot aoid n ∈ w.log → n ≤ now) (t : ℕ) :
    Paced env aoid interval
      { db := w.db.updateWatch (fun r => r.aoid == aoid)
          (fun r => { r with lastPolled := some now }) fun _ => rfl
        tick := t, log := w.log } := by
  refine ⟨hsetting, hspaced, fun n hn r hr => ?_⟩
  obtain ⟨hmem, haoid⟩ := List.mem_filter.mp hr
  obtain ⟨r', hr', rfl⟩ := List.mem_map.mp hmem
  by_cases heq : r'.aoid = aoid
  · have hrows : rowsOf w.db aoid ≠ [] :=
      List.ne_nil_of_mem (List.mem_filter.mpr ⟨hr', by simpa using heq⟩)
    exact ⟨now, by simp [heq], hlatest hrows n hn⟩
  · simp [heq] at haoid

theorem under_updateLastPolled_stored (h : Stored env aoid interval now w) :
    Under (Apart aoid) (fun w => Spaced (interval * usPerMinute) aoid w.log)
      (fun _ => Paced env aoid interval) (fun _ => True) (updateLastPolled env aoid now) w := by
  refine under_statement h.spaced (fun w' a db note hapart _ hf => ?_) fun _ _ => trivial
  cases hf
  rw [List.append_nil]
  have hstored := stored_apart hapart h
  exact paced_setLastPolled hstored.setting hstored.spaced (fun _ => hstored.latest) _

/-- Where the order service has no data, the row is advanced all the same. -/
theorem under_updateLastPolled_ready (hinterval : 0 ≤ interval)
    (h : Ready env aoid interval now w) :
    Under (Apart aoid) (fun w => Spaced (interval * usPerMinute) aoid w.log)
      (fun _ => Paced env aoid interval) (fun _ => True) (updateLastPolled env aoid now) w := by
  refine under_statement h.spaced (fun w' a db note hapart _ hf => ?_) fun _ _ => trivial
  cases hf
  rw [List.append_nil]
  have hready := ready_apart hapart h
  have hgap : 0 ≤ interval * usPerMinute := mul_nonneg hinterval (by decide)
  refine paced_setLastPolled hready.setting hready.spaced (fun hrows n hn => ?_) _
  have hbefore := hready.due hrows n hn
  omega

/-- The pace of an item's snapshots, kept up by the cycles. -/
def paceUpkeep (env : Env) (aoid interval : ℤ) (h : 0 ≤ interval) : Upkeep env aoid where
  settled := Paced env aoid interval
  safe w := Spaced (interval * usPerMinute) aoid w.log
  settled_apart := paced_apart
  safe_apart := by
    intro w w' hapart hw
    obtain ⟨note, hlog, hnote⟩ := Apart.snapshots hapart
    rw [hlog]
    exact spaced_append hw hnote
  safe_of_settled hw := hw.spaced
  turn_none hw hdue := under_updateLastPolled_ready h (ready_of_due hw hdue)
  turn_book := by
    rintro now began watch book w rfl hw hdue
    have hnote : ∀ n, Event.snapshot watch.aoid n ∉ [Event.fetched watch.aoid book] := by simp
    have hready := ready_of_due hw hdue
    have hfetched : Ready env watch.aoid interval now
        { w.next with log := w.log ++ [.fetched watch.aoid book] } := by
      refine ⟨⟨hw.setting, spaced_append hw.spaced hnote, fun n hn => ?_⟩, fun hrows n hn => ?_⟩
      · rw [mem_snapshot_append hnote] at hn
        exact hw.polled n hn
      · rw [mem_snapshot_append hnote] at hn
        exact hready.due hrows n hn
    refine Under.mono (under_snapshot h hfetched) fun _ w hstored => ?_
    exact Under.bind (Under.mono (under_detectNewOrders_stored hstored) fun _ _ h =>
      under_updateLastPolled_stored h)

end Pace

/-! Cycles together -/

/-- No subscriber is alerted twice to an order without a poll in between that found the order
gone, and no item has two snapshots within one poll interval. -/
structure Undoubled (env : Env) (w : World) (log : List Event) : Prop where
  alerts : ∀ player aoid fp, Separated (Mentions player aoid fp) (Gone env.py aoid fp) log
  snapshots : ∀ interval, readSetting env w.db "PollIntervalMinutes" = .ok (.int interval) →
    ∀ aoid, Spaced (interval * usPerMinute) aoid log

section Together
variable {ι : Type} [DecidableEq ι]

def cycles (env : Env) (w : World) : Pool ι Call World PyErr PollSummary :=
  Pool.start w fun _ => pollMarket env

/-- In every state of every interleaving whose turns begin on an item that is still due and
in nobody else's turn, and do not break off after their snapshot, nothing is doubled. -/
theorem undoubled_of_disciplined {w : World} {schedule : List ι} (hlog : w.log = [])
    (h : Pool.Respects (Disciplined env) (Pool.start w fun _ => cycleAt env) schedule) :
    Undoubled env w ((cycles env w).exec schedule).shared.log := by
  constructor
  · intro player aoid fp
    apply (alertUpkeep env player aoid fp).safe_of_disciplined _ h
    constructor
    · rw [hlog]
      exact separated_nil
    · rw [hlog]
      exact fun hp => absurd hp pending_nil
  · intro interval hsetting aoid
    by_cases hinterval : 0 ≤ interval
    · apply (paceUpkeep env aoid interval hinterval).safe_of_disciplined _ h
      refine ⟨hsetting, ?_, ?_⟩
      · rw [hlog]
        exact List.Pairwise.nil
      · simp [hlog]
    · -- A negative interval has no two times within it.
      apply List.pairwise_of_forall
      rintro e e' n m _ _
      have habs := abs_nonneg (m - n)
      have hneg : interval * usPerMinute < 0 := mul_neg_of_neg_of_pos (by omega) (by decide)
      omega

end Together

def quiet : Env := { Env.calm with getOrders := fun _ _ => .ok (some listed) }

/-- A second cycle may come to its due list while the first is at work, if it reads it after
the first has updated the item. -/
theorem second_cycle_waits : Undoubled quiet { db := subscribed }
    ((cycles quiet { db := subscribed }).exec
      (List.replicate 7 (1 : Fin 2) ++ List.replicate 20 0 ++ List.replicate 4 1)).shared.log :=
  undoubled_of_disciplined rfl (by decide +kernel)

def inStep : List Event :=
  ((cycles quiet { db := subscribed }).exec (List.replicate 17 [(0 : Fin 2), 1]).flatten).shared.log

/-- Both read the item as due and the order as new: two snapshots of one time, and Bob is
alerted twice. -/
theorem cycles_in_step_double :
    ¬ Separated (Mentions "bob" 1 "sell|500|10|1|Dan") (Gone quiet.py 1 "sell|500|10|1|Dan") inStep ∧
      readSetting quiet subscribed "PollIntervalMinutes" = .ok (.int 60) ∧
      ¬ Spaced (60 * usPerMinute) 1 inStep := by
  let new := newOrders quiet listed ["sell|400|10|1|Dan"]
  let start : List Event := [.fetched 1 listed, .fetched 1 listed, .snapshot 1 0, .snapshot 1 0,
    .notified 1 new, .notified 1 new]
  let done : List Event := [.alerted "carol" 1 new false, .alerted "carol" 1 new false,
    .replaced 1 ["sell|500|10|1|Dan"], .replaced 1 ["sell|500|10|1|Dan"]]
  have hlog : inStep = start ++ .alerted "bob" 1 new false ::
      ([] ++ .alerted "bob" 1 new false :: done) := rfl
  have hfp : "sell|500|10|1|Dan" ∈ new.map Prod.fst := by decide
  refine ⟨fun h => ?_, rfl, fun h => ?_⟩
  · obtain ⟨e, he, _⟩ := h _ _ _ _ _ hlog ⟨rfl, rfl, hfp⟩ ⟨rfl, rfl, hfp⟩
    cases he
  · rw [hlog] at h
    have hsub : [Event.snapshot 1 0, .snapshot 1 0].Sublist (start ++ .alerted "bob" 1 new false ::
        ([] ++ .alerted "bob" 1 new false :: done)) := by simp [start]
    have hpair := h.sublist hsub
    have hgap := List.rel_of_pairwise_cons hpair (List.mem_singleton_self _) 0 0 rfl rfl
    simp [usPerMinute] at hgap

end AoMarket.OverlappingCycles
