import AoMarket.NewOrders
import AoMarket.PollRuns
import AoMarket.Separation

/-!
The first poll of an item after its watch row was created. The program takes it for
the first one when no seen orders are stored for the item, but deleting the row
leaves them stored: the poll then compares with the last poll of the earlier row.
-/

namespace AoMarket.FirstPoll

open Coroutine Relational Models Database OrderBook PyText Environment MarketRepo Polling Writes
  ServiceWrites PollTurn PollRuns Separation
open NewOrders (offered)

variable {env : Env}

/-! The stored seen set -/

def stored (aoid : ℤ) (before : List String) : Event → List String
  | .replaced a fingerprints => if a = aoid then fingerprints else before
  | _ => before

/-- What the last replacement of the item's seen set stored. -/
def lastStored (aoid : ℤ) (log : List Event) : List String := log.foldl (stored aoid) []

/-- The rows of the item are those of the last replacement. -/
def SeenStored (aoid : ℤ) (w : World) : Prop :=
  seenFingerprints w.db aoid = (lastStored aoid w.log).dedup

theorem stored_of_plain {aoid : ℤ} {before : List String} {e : Event} (h : plain e = true) :
    stored aoid before e = before := by
  cases e <;> simp [plain, stored] at h ⊢

theorem foldl_stored {aoid : ℤ} {before : List String} {note : List Event}
    (h : ∀ e ∈ note, ∀ l, stored aoid l e = l) : note.foldl (stored aoid) before = before := by
  induction note with
  | nil => rfl
  | cons e rest ih =>
    rw [List.foldl_cons, h e List.mem_cons_self]
    exact ih fun e' he' => h e' (List.mem_cons_of_mem e he')

/-- Only a replacement of the item's seen set notes one. -/
theorem stored_of_effect {aoid : ℤ} {op : Write} {db db' : Db} {note : List Event}
    (h : Effect op db db' note) (hop : op ≠ .replaceSeen aoid) {e : Event} (he : e ∈ note)
    (before : List String) : stored aoid before e = before := by
  cases h <;> simp at he
  case replaceSeen a fingerprints =>
    rw [he]
    exact if_neg fun heq => hop (by rw [heq])
  case alertTell => rcases he with rfl | rfl <;> rfl
  all_goals
    rw [he]
    rfl

theorem seen_of_replace {aoid : ℤ} {db db' : Db} {note : List Event}
    (h : Effect (.replaceSeen aoid) db db' note) (before : List String) :
    seenFingerprints db' aoid = (note.foldl (stored aoid) before).dedup := by
  cases h
  rw [seen_replaceSeen]
  simp [stored]

/-- Every call keeps the rows and the log in step. -/
theorem seenStored_of_steps {A : Write → Prop} {aoid : ℤ} {w w' : World} (h : Steps A w w')
    (hw : SeenStored aoid w) : SeenStored aoid w' := by
  obtain ⟨_, note, hlog, hdb⟩ := h
  unfold SeenStored at *
  have hlast : lastStored aoid w'.log = note.foldl (stored aoid) (lastStored aoid w.log) := by
    rw [lastStored, hlog, List.foldl_append, lastStored]
  rw [hlast]
  rcases hdb with ⟨hsame, hsilent⟩ | ⟨op, _, heffect⟩
  · rw [hsame, hw, foldl_stored fun e he l => stored_of_plain (hsilent e he)]
  · by_cases hop : op = .replaceSeen aoid
    · subst hop
      exact seen_of_replace heffect _
    · rw [heffect.seen_eq hop, hw, foldl_stored fun e he l => stored_of_effect heffect hop he l]

theorem seenStored_of_keeps {α : Type} {A : Write → Prop} {aoid : ℤ} {p : M α} (h : Keeps A p)
    {w : World} (hw : SeenStored aoid w) : SeenStored aoid (p.run w).2 :=
  h.run_inv (fun _ _ => seenStored_of_steps) hw

/-! Turns that alert nobody -/

def IsAlert : Event → Prop
  | .alerted _ _ _ _ => True
  | _ => False

/-- No alert is sent and none is queued on the way. -/
structure Quietly (w w' : World) : Prop where
  alerts : w'.db.pendingAlerts = w.db.pendingAlerts
  log : ∃ note, w'.log = w.log ++ note ∧ ∀ e ∈ note, ¬ IsAlert e

theorem Quietly.refl (w : World) : Quietly w w := ⟨rfl, [], by simp, by simp⟩

theorem Quietly.trans {a b c : World} (h : Quietly a b) (h' : Quietly b c) : Quietly a c := by
  obtain ⟨halerts, l, hl, hno⟩ := h
  obtain ⟨halerts', l', hl', hno'⟩ := h'
  refine ⟨halerts'.trans halerts, l ++ l', by rw [hl', hl, List.append_assoc], ?_⟩
  intro e he
  rcases List.mem_append.mp he with he | he
  · exact hno e he
  · exact hno' e he

def QuietWrites : Write → Prop
  | .fetch _ | .notify _ | .insertHistory _ _ | .replaceSeen _ | .setLastPolled _ _ => True
  | _ => False

theorem no_alert_of_effect {op : Write} {db db' : Db} {note : List Event} (hop : QuietWrites op)
    (h : Effect op db db' note) : ∀ e ∈ note, ¬ IsAlert e := by
  cases h with
  | insertHistory | fetch | notify | replaceSeen | setLastPolled => simp [IsAlert]
  | _ => exact hop.elim

theorem quietly_of_steps {w w' : World} (h : Steps QuietWrites w w') : Quietly w w' := by
  obtain ⟨_, note, hlog, hdb⟩ := h
  rcases hdb with ⟨hsame, hsilent⟩ | ⟨op, hop, heffect⟩
  · refine ⟨by rw [hsame], note, hlog, ?_⟩
    intro e he halert
    have hplain := hsilent e he
    cases e <;> simp [plain, IsAlert] at hplain halert
  · refine ⟨heffect.alerts_eq ?_, note, hlog, no_alert_of_effect hop heffect⟩
    cases op <;> first | exact hop.elim | exact id

theorem quietly_of_keeps {α : Type} {A : Write → Prop} {p : M α} (h : Keeps A p)
    (hA : ∀ op, A op → QuietWrites op) (w : World) : Quietly w (p.run w).2 :=
  h.run_of_steps Quietly.refl Quietly.trans (fun _ _ hs => quietly_of_steps (hs.mono hA)) w

/-- A sequence is quiet if both parts are. -/
theorem quietly_bind {α β : Type} {p : M α} {f : α → M β} {w : World}
    (hp : Quietly w (p.run w).2)
    (hf : ∀ a w', p.run w = (.ok a, w') → Quietly w' ((f a).run w').2) :
    Quietly w ((p >>= f).run w).2 := by
  rcases hrun : p.run w with ⟨e | a, w'⟩
  · rw [Coro.run_bind_error hrun]
    rwa [hrun] at hp
  · rw [Coro.run_bind_ok hrun]
    rw [hrun] at hp
    exact hp.trans (hf a w' hrun)

/-- None of the orders passes the filter of any of the subscribers. -/
def NoMatch (env : Env) (orders : Fingerprinted) (subs : List MarketSubscription) : Prop :=
  ∀ sub ∈ subs, ∀ found, matching env.py orders sub = some found → found = []

theorem alertFor_of_noMatch {aoid : ℤ} {name : String} {orders : Fingerprinted}
    {sub : MarketSubscription}
    (h : ∀ found, matching env.py orders sub = some found → found = []) :
    (∃ e, alertFor env.py aoid name orders sub = .error e) ∨
      alertFor env.py aoid name orders sub = .ok none := by
  unfold alertFor
  cases hm : matching env.py orders sub with
  | none => exact Or.inl ⟨_, rfl⟩
  | some found =>
    rw [h found hm]
    exact Or.inr rfl

/-- The loop over subscribers whose filters match nothing changes nothing. -/
theorem run_notifyEach_noMatch {aoid : ℤ} {name : String} {orders : Fingerprinted}
    {subs : List MarketSubscription} (h : NoMatch env orders subs) (w : World) :
    ((notifyEach env aoid name orders subs).run w).2 = w := by
  induction subs with
  | nil => rfl
  | cons sub rest ih =>
    rw [notifyEach_cons]
    rcases @alertFor_of_noMatch env aoid name orders sub (h sub List.mem_cons_self) with
      ⟨e, halert⟩ | halert
    · rw [halert]
      rfl
    · rw [halert]
      exact ih fun s hs => h s (List.mem_cons_of_mem sub hs)

/-- Detection alerts nobody when there is no seen set yet, nothing new, or no filter that a new
order passes. -/
theorem quietly_alertNew {aoid : ℤ} {book : Orders} {name : String} {seen : List String} {w : World}
    (h : seen = [] ∨ NoMatch env (newOrders env book seen) (subscribers w.db aoid)) :
    Quietly w ((alertNew env aoid book name seen).run w).2 := by
  by_cases hskip : seen = [] ∨ newFingerprints env book seen = []
  · rw [alertNew_of_skip hskip]
    exact Quietly.refl w
  · obtain ⟨hseen, hnew⟩ := not_or.mp hskip
    have hno := h.resolve_left hseen
    rw [alertNew_of_new hseen hnew]
    refine quietly_bind ?_ fun _ w' _ => Quietly.refl w'
    have hsubs : Keeps QuietWrites
        (subscribersForAoid env aoid [.notified aoid (newOrders env book seen)]) :=
      keeps_subscribersForAoid trivial _
    refine quietly_bind (quietly_of_keeps hsubs (fun _ => id) w) fun subs w' hrun => ?_
    obtain ⟨hget, -⟩ := run_query_eq_ok hrun
    cases hget
    rw [run_notifyEach_noMatch]
    · exact Quietly.refl w'
    · exact fun sub hsub => hno sub ((env.rowOrder_perm _ _).mem_iff.mp hsub)

theorem quietly_detectNewOrders {aoid : ℤ} {book : Orders} {name : String} {w : World}
    (h : seenFingerprints w.db aoid = [] ∨
      NoMatch env (newOrders env book (seenFingerprints w.db aoid)) (subscribers w.db aoid)) :
    Quietly w ((detectNewOrders env aoid book name).run w).2 := by
  rw [detectNewOrders_eq]
  have hget : Keeps QuietWrites (getSeenFingerprints env aoid) := keeps_getSeenFingerprints aoid
  refine quietly_bind (quietly_of_keeps hget (fun _ => id) w) fun seen w' hrun => ?_
  obtain ⟨hget, rfl⟩ := run_query_eq_ok hrun
  cases hget
  refine quietly_bind (quietly_alertNew h) fun _ w' _ => ?_
  have hreplace : Keeps QuietWrites (replaceSeenFingerprints env aoid (book.fingerprints env.py)) :=
    keeps_replaceSeenFingerprints trivial _
  exact quietly_of_keeps hreplace (fun _ => id) w'

/-- The seen set stored last for the item is empty, or no order of the book that is new
to it passes the filter of a subscriber. -/
def NothingToAlert (env : Env) (t : Turn) : Prop :=
  lastStored t.watch.aoid t.start.log = [] ∨
    ∀ book, env.getOrders t.start.tick t.watch.aoid = .ok (some book) →
      NoMatch env (newOrders env book (seenFingerprints t.start.db t.watch.aoid))
        (subscribers t.start.db t.watch.aoid)

/-- The whole turn alerts nobody, under the condition on what was stored last. -/
theorem quietly_turn {t : Turn} (hstored : SeenStored t.watch.aoid t.start)
    (h : NothingToAlert env t) : Quietly t.start (t.stop env) := by
  obtain ⟨now, began, watch, w⟩ := t
  unfold Turn.stop
  dsimp only at *
  rw [pollItem_eq]
  have hexamine : Quietly w ((examine env now began watch).run w).2 := by
    rcases horders : env.getOrders w.tick watch.aoid with e | _ | book
    · rw [run_examine_error horders]
      exact ⟨rfl, [], by simp [World.next], by simp⟩
    · rw [run_examine_none horders]
      exact ⟨rfl, [], by simp [World.next], by simp⟩
    · by_cases hs : StoresSnapshot env watch book w.db (w.tick + 1)
      · obtain ⟨db, hsame, hrun⟩ := @run_examine_stored env now began watch w book horders hs
        rw [hrun]
        have hbefore : Quietly w
            { db := db, tick := w.tick + 2,
              log := w.log ++ [.fetched watch.aoid book, .snapshot watch.aoid now] } :=
          ⟨hsame.alerts, _, rfl, by simp [IsAlert]⟩
        refine hbefore.trans ?_
        refine quietly_bind (quietly_detectNewOrders ?_) fun _ w' _ => Quietly.refl w'
        rw [hsame.seen, subscribers, hsame.subs]
        rcases h with hlast | hnone
        · left
          rw [hstored, hlast]
          rfl
        · exact Or.inr (hnone book horders)
      · obtain ⟨e, w', hrun, hdb, hlog⟩ := @run_examine_refused env now began watch w book horders hs
        rw [hrun]
        exact ⟨by rw [hdb], _, hlog, by simp [IsAlert]⟩
  refine quietly_bind hexamine fun _ w' _ => ?_
  have hupdate : Keeps QuietWrites (updateLastPolled env watch.aoid now) :=
    keeps_updateLastPolled trivial
  exact quietly_bind (quietly_of_keeps hupdate (fun _ => id) w') fun _ w' _ => Quietly.refl w'

/-! Runs -/

def IsCreated (aoid : ℤ) : Event → Prop
  | .created a => a = aoid
  | _ => False

def IsFetched (aoid : ℤ) : Event → Prop
  | .fetched a _ => a = aoid
  | _ => False

def FirstTurn (t : Turn) : Prop :=
  Pending (IsCreated t.watch.aoid) (IsFetched t.watch.aoid) t.start.log

/-- In every run of tracking operations and poll cycles from an empty seen table, the
first poll after a row was created alerts nobody if the seen set stored last for the
item, be it for an earlier row, is empty or nothing new to it passes a filter. -/
theorem first_poll_silent {moves : List (Move env)} {w : World} (hlog : w.log = [])
    (hseen : w.db.seenOrders = [])
    (h : ∀ t ∈ runTurns env moves w, FirstTurn t → NothingToAlert env t) :
    ∀ t ∈ runTurns env moves w, FirstTurn t → Quietly t.start (t.stop env) := by
  have hinit : ∀ aoid, SeenStored aoid w := by
    intro aoid
    simp [SeenStored, seenFingerprints, hseen, hlog, lastStored]
  have hturn : ∀ t : Turn, True → (∀ aoid, SeenStored aoid t.start) →
      ∀ aoid, SeenStored aoid (t.stop env) :=
    fun t _ hJ aoid => seenStored_of_keeps (keeps_pollItem fun _ => id) (hJ aoid)
  have hother : ∀ (α : Type) (p : M α) (w : World), Keeps Background p →
      (∀ aoid, SeenStored aoid w) → ∀ aoid, SeenStored aoid (p.run w).2 :=
    fun _ p w hp hJ aoid => seenStored_of_keeps hp (hJ aoid)
  have hall : ∀ t ∈ runTurns env moves w, True := fun _ _ => trivial
  have hstarts := (play_invariant hturn hother hall hinit).2
  intro t ht hfirst
  exact quietly_turn (hstarts t ht t.watch.aoid) (h t ht hfirst)

/-! Untracked and tracked again -/

def stocked : Db where
  toTables :=
    { users := [⟨"bob", false⟩]
      settings := [⟨"HistoryRetentionDays", "30", .int⟩, ⟨"WatchExpireDays", "30", .int⟩,
        ⟨"PollIntervalMinutes", "60", .int⟩, ⟨"PollBatchSize", "10", .int⟩,
        ⟨"MaxSubscriptionsPerPlayer", "25", .int⟩, ⟨"LogToPrivateChannel", "false", .bool⟩,
        ⟨"LogBackgroundToPrivateChannel", "false", .bool⟩] }
  sound := by constructor <;> simp [Keyed, Refers]

def reoffered : Orders :=
  { sellOrders := [⟨.num (.int 600), .num (.int 10), .num (.int 1), .str "Bob"⟩], buyOrders := [] }

/-- The price changes between the two cycles. -/
def reopening : Env :=
  { Env.calm with
    getItem := fun _ aoid => .ok (some ⟨aoid, "Ring", 1, none⟩)
    getOrders := fun tick _ => .ok (some (if tick < 40 then offered else reoffered)) }

def retracking : List (Move reopening) :=
  [.of (MarketService.subscribe reopening "bob" 1) (background_subscribe _ _), .cycle,
    .of (MarketService.untrackAll reopening) background_untrackAll,
    .of (MarketService.subscribe reopening "bob" 1) (background_subscribe _ _), .cycle]


def tracked : Turn := (runTurns reopening (retracking.take 2) { db := stocked }).get ⟨0, by decide⟩

/-- The first poll of the first row finds no stored orders and alerts nobody. -/
theorem tracked_silent : Quietly tracked.start (tracked.stop reopening) := by
  have hfirst : FirstTurn tracked := ⟨[], .created 1, [], rfl, rfl, by simp⟩
  refine first_poll_silent rfl rfl ?_ tracked (List.get_mem _ _) hfirst
  intro t ht _
  obtain ⟨i, hi, rfl⟩ := List.getElem_of_mem ht
  have hlen : (runTurns reopening (retracking.take 2) { db := stocked }).length = 1 := rfl
  obtain rfl : i = 0 := by omega
  exact Or.inl rfl

def retracked : Turn := (runTurns reopening retracking { db := stocked }).get ⟨1, by decide⟩

/-- Bob tracks item 1 again after it was polled and untracked; the first poll of the new
row queues him an alert. -/
theorem retracked_alerts : retracked ∈ runTurns reopening retracking { db := stocked } ∧
    FirstTurn retracked ∧ ¬ Quietly retracked.start (retracked.stop reopening) := by
  refine ⟨List.get_mem _ _, ?_, ?_⟩
  · exact ⟨[.created 1, .fetched 1 offered, .snapshot 1 0, .replaced 1 ["sell|500|10|1|Bob"]],
      .created 1, [], rfl, rfl, by simp⟩
  · intro h
    exact absurd (congrArg List.length h.alerts) (by decide)

end AoMarket.FirstPoll
