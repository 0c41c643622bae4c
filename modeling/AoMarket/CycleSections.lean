import AoMarket.PollProgress
import AoMarket.Sections
import Mathlib.Data.Fintype.Basic

/-!
Poll cycles under way at the same time. Each call of a cycle is located, in the
selection of the due items, in the turn of an item or in the announcement; the
turns of one item are the sections in which cycles work on it. `Disciplined`
schedules begin a turn only on an item that is still due and in nobody else's
turn, and break no turn off once its snapshot is stored.
-/

namespace AoMarket.CycleSections

open Coroutine Interleaving Relational Models Database OrderBook PyNumber Environment MarketRepo
  SettingsRepo Polling Writes ServiceWrites PollTurn PollProgress Sections

/-! Located cycles -/

inductive Place where
  | selecting
  | polling (now aoid : ℤ)
  | announcing
deriving DecidableEq

abbrev Located (α : Type) := Coro (Call × Place) World PyErr α

section Cycle
variable {α : Type} (env : Env)

def locate (place : Place) (p : M α) : Located α := p.relabel fun call => (call, place)

def itemsAt (now : ℤ) : Option ℕ → List MarketWatch → Located ℕ
  | _, [] => pure 0
  | began, watch :: rest => do
    let updated ← locate (.polling now watch.aoid) (pollItem env now began watch)
    let others ← itemsAt now none rest
    return (if updated then 1 else 0) + others

/-- poll_market with its calls located. -/
def cycleAt : Located PollSummary := do
  let due ← locate .selecting (selectDue env)
  let updated ← itemsAt env due.now (some due.began) due.items
  locate .announcing (announceCycle env due updated)
  return { dueCount := due.items.length, updatedCount := updated,
           expiredCount := due.expired.length }

theorem relabel_locate (place : Place) (p : M α) : (locate place p).relabel Prod.fst = p := by
  rw [locate, Coro.relabel_relabel]
  exact Coro.relabel_id p

theorem relabel_itemsAt (now : ℤ) (began : Option ℕ) (due : List MarketWatch) :
    (itemsAt env now began due).relabel Prod.fst = pollItems env now began due := by
  induction due generalizing began with
  | nil => rfl
  | cons watch rest ih =>
    simp only [itemsAt, pollItems, Coro.relabel_bind, relabel_locate, ih, Coro.relabel_pure]

theorem relabel_cycleAt : (cycleAt env).relabel Prod.fst = pollMarket env := by
  simp only [cycleAt, pollMarket, Coro.relabel_bind, relabel_locate, relabel_itemsAt,
    Coro.relabel_pure]

end Cycle

/-! Schedules -/

/-- The item's row, if it is there, was not polled since the interval before `now` began. -/
def stillDue (env : Env) (now aoid : ℤ) (db : Db) : Bool :=
  match readSetting env db "PollIntervalMinutes" with
  | .ok (.int interval) =>
    (rowsOf db aoid).all fun r => polledBefore r (now - interval * usPerMinute)
  | _ => true

/-- The call belongs to a turn of the item that has begun. -/
def inTurn (aoid : ℤ) : Call × Place → Bool
  | (call, .polling _ a) => call != .getOrders && a == aoid
  | _ => false

section Schedules
variable {ι : Type} [DecidableEq ι]

/-- A turn begins on an item that is still due and in no other cycle's turn, and no exception
ends it once its snapshot is stored. -/
def Disciplined (env : Env) (P : Pool ι (Call × Place) World PyErr PollSummary) (i : ι) : Prop :=
  match (P.thread i).waiting with
  | some (.getOrders, .polling now aoid) => stillDue env now aoid P.shared.db = true ∧
      ∀ j, j ≠ i → (P.thread j).waiting.any (inTurn aoid) = false
  | some (.insertSnapshot, .polling _ _) => True
  | some (_, .polling _ _) => ((P.turn i).thread i).raised = false
  | _ => True

instance [Fintype ι] (env : Env) (P : Pool ι (Call × Place) World PyErr PollSummary) (i : ι) :
    Decidable (Disciplined env P i) := by
  unfold Disciplined
  split <;> infer_instance

end Schedules

/-! What the others do to an item -/

/-- A write of another item's turn, or of the selection. -/
def Elsewhere (aoid : ℤ) : Write → Prop
  | .deleteStale _ | .pruneHistory => True
  | .fetch a | .insertHistory a _ | .notify a | .alertTell _ a | .queueAlert _ a | .replaceSeen a
  | .setLastPolled a _ => a ≠ aoid
  | _ => False

def Concerns (aoid : ℤ) : Event → Prop
  | .fetched a _ | .snapshot a _ | .alerted _ a _ _ => a = aoid
  | _ => False

/-- Another cycle leaves the item alone, though it may drop the item's row. -/
structure Apart (aoid : ℤ) (w w' : World) : Prop where
  log : ∃ note, w'.log = w.log ++ note ∧ ∀ e ∈ note, ¬ Concerns aoid e
  seen : seenFingerprints w'.db aoid = seenFingerprints w.db aoid
  rows : rowsOf w'.db aoid = rowsOf w.db aoid ∨ rowsOf w'.db aoid = []
  settings : w'.db.settings = w.db.settings

section Apart
variable {aoid : ℤ} {w w' w'' : World}

theorem Apart.refl (w : World) : Apart aoid w w :=
  ⟨⟨[], by simp, by simp⟩, rfl, Or.inl rfl, rfl⟩

theorem Apart.trans (h : Apart aoid w w') (h' : Apart aoid w' w'') : Apart aoid w w'' := by
  obtain ⟨note, hlog, hnote⟩ := h.log
  obtain ⟨note', hlog', hnote'⟩ := h'.log
  refine ⟨⟨note ++ note', by rw [hlog', hlog, List.append_assoc], ?_⟩, h'.seen.trans h.seen, ?_,
    h'.settings.trans h.settings⟩
  · intro e he
    rcases List.mem_append.mp he with he | he
    · exact hnote e he
    · exact hnote' e he
  · rcases h'.rows with hsame | hnone
    · rw [hsame]
      exact h.rows
    · exact Or.inr hnone

theorem Apart.next (w : World) : Apart aoid w w.next :=
  ⟨⟨[], by simp [World.next], by simp⟩, rfl, Or.inl rfl, rfl⟩

theorem not_concerns_of_silent {note : List Event} (h : Silent note) :
    ∀ e ∈ note, ¬ Concerns aoid e := by
  intro e he hconcerns
  have hplain := h e he
  cases e <;> simp [plain, Concerns] at hplain hconcerns

/-- A write of another item's turn notes nothing about this item. -/
theorem not_concerns_of_effect {op : Write} {db db' : Db} {note : List Event}
    (hop : Elsewhere aoid op) (h : Effect op db db' note) : ∀ e ∈ note, ¬ Concerns aoid e := by
  intro e he hconcerns
  cases h <;> simp at he
  case insertHistory row cycle h =>
    subst he
    exact hop hconcerns
  case queueAlert p a message now orders =>
    subst he
    exact hop hconcerns
  case fetch a book =>
    subst he
    exact hop hconcerns
  case alertTell p a message orders =>
    rcases he with rfl | rfl
    · exact hconcerns
    · exact hop hconcerns
  all_goals
    subst he
    exact hconcerns

/-- It leaves the item's row as it is, or drops it. -/
theorem rowsOf_elsewhere {op : Write} {db db' : Db} {note : List Event}
    (hop : Elsewhere aoid op) (h : Effect op db db' note) :
    rowsOf db' aoid = rowsOf db aoid ∨ rowsOf db' aoid = [] := by
  by_cases hspares : Spares aoid op
  · exact Or.inl (rowsOf_of_effect hspares h)
  · cases op with
    | deleteStale aoids =>
      cases h
      by_cases hmem : aoid ∈ aoids
      · right
        apply List.filter_eq_nil_iff.mpr
        intro r hr haoid
        have hkept := (mem_deleteRows.mp hr).2
        have ha : r.aoid = aoid := by simpa using haoid
        simp [ha, hmem] at hkept
      · left
        apply filter_deleteRows
        intro r _ hr
        have ha : r.aoid = aoid := by simpa using hr
        simpa [ha] using hmem
    | setLastPolled a ts => exact absurd hop hspares
    | _ => first | exact hop.elim | exact absurd (fun ht => ht) hspares

/-- Whatever another cycle does in its own turns, it leaves this item alone. -/
theorem apart_of_steps (h : Steps (Elsewhere aoid) w w') : Apart aoid w w' := by
  obtain ⟨_, note, hlog, ⟨hdb, hsilent⟩ | ⟨op, hop, heffect⟩⟩ := h
  · exact ⟨⟨note, hlog, not_concerns_of_silent hsilent⟩, by rw [hdb], Or.inl (by rw [hdb]),
      by rw [hdb]⟩
  · refine ⟨⟨note, hlog, not_concerns_of_effect hop heffect⟩, heffect.seen_eq ?_,
      rowsOf_elsewhere hop heffect, heffect.settings_eq ?_⟩
    · rintro rfl
      exact hop rfl
    · rintro rfl
      exact hop

theorem stillDue_apart {env : Env} {now : ℤ} (h : Apart aoid w w')
    (hdue : stillDue env now aoid w.db = true) : stillDue env now aoid w'.db = true := by
  unfold stillDue readSetting at *
  rw [h.settings]
  rcases h.rows with hsame | hnone
  · rwa [hsame]
  · rw [hnone]
    split <;> rfl

end Apart

/-! Single calls with interference -/

section Calls
variable {env : Env} {α : Type} {call : Call} {R : World → World → Prop} {I E : World → Prop}
  {Q : α → World → Prop} {w : World}

/-- A statement under the interference of other cycles: it starts in any state they may have
led to. -/
theorem under_statement {f : ℕ → Db → Except PyErr (α × Db × List Event)} (hI : I w)
    (hok : ∀ w' a db note, R w w' → env.dbFault w'.tick = none →
      f w'.tick w'.db = .ok (a, db, note) →
        Q a { db := db, tick := w'.tick + 1, log := w'.log ++ note })
    (herror : ∀ w', R w w' → E w'.next) : Under R I Q E (statement env call f) w := by
  refine Under.act hI (fun w' a t hw' hrun => ?_) fun w' e t hw' hrun => ?_
  · split at hrun
    · cases hrun
    · next hdb =>
      split at hrun
      · cases hrun
      · next hf =>
        cases hrun
        exact hok w' a _ _ hw' hdb hf
  · split at hrun
    · cases hrun
      exact herror w' hw'
    · split at hrun
      · cases hrun
        exact herror w' hw'
      · cases hrun

theorem under_query {f : ℕ → Db → Except PyErr α} {note : List Event} (hI : I w)
    (hok : ∀ w' a, R w w' → f w'.tick w'.db = .ok a →
      Q a { w'.next with log := w'.log ++ note })
    (herror : ∀ w', R w w' → E w'.next) : Under R I Q E (query env call f note) w := by
  refine under_statement hI (fun w' a db note' hw' _ hf => ?_) herror
  cases hres : f w'.tick w'.db with
  | error e =>
    rw [hres] at hf
    cases hf
  | ok b =>
    rw [hres] at hf
    cases hf
    exact hok w' a hw' hres

end Calls

/-! Names of the calls in a turn -/

section Names
variable {env : Env} {K : Call → Prop}

theorem calls_insertSnapshot (hK : K .insertSnapshot) (now : ℤ) (began : Option ℕ)
    (aoid : ℤ) (book : Orders) (ql : ℤ) :
    (snapshot env now began aoid book ql).Calls K :=
  Coro.Calls.bind (Coro.Calls.ofExcept _) fun _ => calls_statement hK

def Detects (call : Call) : Prop :=
  call ∈ [.getSeen, .subscribersForAoid, .isOnline, .sendTell, .queueAlert, .replaceSeen]

theorem calls_isOnline (player : String) : (isOnline env player).Calls Detects := by
  unfold isOnline
  split
  · exact calls_external (by simp [Detects])
  · exact Coro.Calls.pure _

theorem calls_sendTell (player message : String) (note : List Event) :
    (sendTell env player message note).Calls Detects := by
  unfold sendTell
  split
  · exact calls_external (by simp [Detects])
  · exact Coro.Calls.pure _

theorem calls_alertSubscriber (aoid : ℤ) (player message : String) (orders : Fingerprinted) :
    (alertSubscriber env aoid player message orders).Calls Detects := by
  have hqueue : (queuePendingAlert env player aoid message
      [.alerted player aoid orders false]).Calls Detects := calls_statement (by simp [Detects])
  refine Coro.Calls.bind (calls_isOnline player) fun online => ?_
  cases online with
  | true => exact calls_sendTell _ _ _
  | false => exact hqueue

theorem calls_notifyEach (aoid : ℤ) (itemName : String) (newOrders : Fingerprinted)
    (subs : List MarketSubscription) :
    (notifyEach env aoid itemName newOrders subs).Calls Detects := by
  induction subs with
  | nil => exact Coro.Calls.pure _
  | cons sub rest ih =>
    refine Coro.Calls.bind (Coro.Calls.ofExcept _) fun orders => ?_
    split
    · exact ih
    · refine Coro.Calls.bind (Coro.Calls.ofExcept _) fun message => ?_
      refine Coro.Calls.bind (calls_alertSubscriber _ _ _ _) fun _ => ?_
      exact Coro.Calls.bind ih fun _ => Coro.Calls.pure _

theorem calls_detectNewOrders (aoid : ℤ) (book : Orders) (itemName : String) :
    (detectNewOrders env aoid book itemName).Calls Detects := by
  have hreplace : (replaceSeenFingerprints env aoid (book.fingerprints env.py)).Calls Detects :=
    calls_statement (by simp [Detects])
  refine Coro.Calls.bind (calls_query (by simp [Detects])) fun seen => ?_
  dsimp only
  split
  · split
    · refine Coro.Calls.bind (Coro.Calls.bind (calls_query (by simp [Detects])) fun subs => ?_)
        fun _ => hreplace
      exact calls_notifyEach aoid itemName _ subs
    · exact hreplace
  · exact hreplace

end Names

def afterFetch (env : Env) (now : ℤ) (began : Option ℕ) (watch : MarketWatch) : Option Orders → M Bool
  | none => do
    updateLastPolled env watch.aoid now
    return false
  | some book => do
    snapshot env now began watch.aoid book watch.ql
    detectNewOrders env watch.aoid book watch.name
    updateLastPolled env watch.aoid now
    return true

theorem pollItem_eq_afterFetch (env : Env) (now : ℤ) (began : Option ℕ) (watch : MarketWatch) :
    pollItem env now began watch = getOrders env watch.aoid >>= afterFetch env now began watch := by
  unfold pollItem
  congr 1
  funext orders
  cases orders with
  | none => rfl
  | some book => simp [afterFetch]

/-! What cycles keep up -/

/-- Something the cycles keep up about an item: `settled` while none is in its turn, `safe`
always. A turn owes both from its first call on, where it finds no data or a book. -/
structure Upkeep (env : Env) (aoid : ℤ) where
  settled : World → Prop
  safe : World → Prop
  settled_apart : ∀ {w w'}, Apart aoid w w' → settled w → settled w'
  safe_apart : ∀ {w w'}, Apart aoid w w' → safe w → safe w'
  safe_of_settled : ∀ {w}, settled w → safe w
  turn_none : ∀ {now w}, settled w → stillDue env now aoid w.db = true →
    Under (Apart aoid) safe (fun _ => settled) (fun _ => True) (updateLastPolled env aoid now) w
  turn_book : ∀ {now} {began : Option ℕ} {watch : MarketWatch} {book : Orders} {w},
    watch.aoid = aoid → settled w → stillDue env now aoid w.db = true →
      Under (Apart aoid) safe
        (fun _ => Under (Apart aoid) safe (fun _ => settled) (fun _ => True) (do
          detectNewOrders env aoid book watch.name
          updateLastPolled env aoid now))
        settled (snapshot env now began aoid book watch.ql)
        { w.next with log := w.log ++ [.fetched aoid book] }

namespace Upkeep
variable {env : Env} {aoid : ℤ} (U : Upkeep env aoid)

def discipline : Discipline (Call × Place) World where
  opens
    | (.getOrders, .polling _ a) => a == aoid
    | _ => false
  within := inTurn aoid
  returns call := inTurn aoid call && call.1 != .insertSnapshot
  enters
    | (_, .polling now _), w => stillDue env now aoid w.db = true
    | _, _ => True
  others := Apart aoid
  settled := U.settled
  safe := U.safe
  others_refl := Apart.refl
  others_trans := Apart.trans
  settled_others := U.settled_apart
  safe_others := U.safe_apart
  safe_of_settled := U.safe_of_settled

section Cycle
variable {α β : Type} {f : α → Located β}

/-- Calls away from the item, all of whose writes are elsewhere. -/
theorem sectioned_elsewhere {p : M α} {place : Place} (hp : Keeps (Elsewhere aoid) p)
    (hplace : ∀ now, place ≠ .polling now aoid) (hf : ∀ a, Sectioned U.discipline none (f a)) :
    Sectioned U.discipline none (locate place p >>= f) := by
  have hsteps : p.Frames (Apart aoid) := Coro.Frames.mono hp fun _ _ => apart_of_steps
  refine Sectioned.bind_outside ?_ hf
  refine Coro.always_relabel.mpr (Coro.Always.mono hsteps.always (fun _ => id) ?_ fun _ => id)
  intro call w w' _ hapart
  cases place with
  | polling now a =>
    have hne : a ≠ aoid := fun heq => hplace now (by rw [heq])
    refine ⟨?_, by simp [discipline, inTurn, hne], hapart⟩
    cases call <;> simp [discipline, hne]
  | selecting | announcing => exact ⟨by cases call <;> rfl, rfl, hapart⟩

theorem calls_locate {now : ℤ} {p : M α} {K : Call × Place → Prop}
    (h : p.Calls fun call => K (call, .polling now aoid)) :
    (locate (.polling now aoid) p).Calls K := Coro.calls_relabel.mpr h

theorem within_of_detects {now : ℤ} {call : Call} (h : Detects call) :
    U.discipline.within (call, .polling now aoid) = true ∧
      U.discipline.returns (call, .polling now aoid) = true := by
  simp only [Detects, List.mem_cons, List.not_mem_nil, or_false] at h
  rcases h with rfl | rfl | rfl | rfl | rfl | rfl <;> simp [discipline, inTurn]

/-- The rest of a turn after its snapshot. -/
theorem sectioned_rest {p : M α} {now : ℤ} {w : World}
    (hcalls : p.Calls fun call => Detects call ∨ call = .updateLastPolled)
    (hraised : p.raised = false)
    (hp : Under (Apart aoid) U.safe (fun _ => U.settled) (fun _ => True) p w)
    (hf : ∀ a, Sectioned U.discipline none (f a)) :
    Sectioned U.discipline (some w) (locate (.polling now aoid) p >>= f) := by
  refine Sectioned.bind_returns ?_ ?_ ?_
  · refine calls_locate (Coro.Calls.mono hcalls ?_)
    rintro call (hdetects | rfl)
    · exact U.within_of_detects hdetects
    · simp [discipline, inTurn]
  · rw [locate, Coro.raised_relabel, hraised]
  · exact under_relabel.mpr (hp.mono fun a w hw => .leaves hw (hf a))

/-- A turn of the item is one section, opened by its first call and closed by its last. -/
theorem sectioned_pollItem {now : ℤ} {began : Option ℕ} {watch : MarketWatch} (haoid : watch.aoid = aoid)
    {f : Bool → Located β} (hf : ∀ b, Sectioned U.discipline none (f b)) :
    Sectioned U.discipline none (locate (.polling now aoid) (pollItem env now began watch) >>= f) := by
  subst haoid
  have hupdate : (updateLastPolled env watch.aoid now).Calls
      fun call => Detects call ∨ call = .updateLastPolled := calls_statement (Or.inr rfl)
  rw [pollItem_eq_afterFetch, locate, Coro.relabel_bind, Coro.bind_assoc, getOrders, external,
    Coro.relabel_act]
  refine sectioned_open (by simp [discipline]) (by simp [discipline, inTurn]) ?_ ?_
  · intro w orders t hw hdue hrun
    have hfetch : (getOrders env watch.aoid).run w = (.ok orders, t) := by
      rw [getOrders, external, Coro.run_act]
      exact hrun
    obtain ⟨_, rfl⟩ := run_external_eq_ok hfetch
    have hnext : Apart watch.aoid w w.next := Apart.next w
    cases orders with
    | none =>
      rw [afterFetch, Coro.relabel_bind, Coro.bind_assoc]
      refine U.sectioned_rest hupdate rfl ?_ fun _ => hf false
      have hlog : { w.next with log := w.log ++ [] } = w.next := by simp [World.next]
      dsimp only
      rw [hlog]
      exact U.turn_none (U.settled_apart hnext hw) (stillDue_apart hnext hdue)
    | some book =>
      rw [afterFetch, Coro.relabel_bind, Coro.bind_assoc]
      refine Sectioned.bind_within ?_ ?_
      · exact calls_locate (calls_insertSnapshot (by simp [discipline, inTurn]) _ _ _ _ _)
      · have hrest : (detectNewOrders env watch.aoid book watch.name >>= fun _ =>
            updateLastPolled env watch.aoid now).Calls
              fun call => Detects call ∨ call = .updateLastPolled :=
          Coro.Calls.bind (Coro.Calls.mono (calls_detectNewOrders _ _ _) fun _ => Or.inl)
            fun _ => hupdate
        refine under_relabel.mpr ((U.turn_book rfl hw hdue).mono fun _ t ht => ?_)
        rw [← Coro.bind_assoc, Coro.relabel_bind, Coro.bind_assoc]
        exact U.sectioned_rest hrest rfl ht fun _ => hf true
  · intro w e t hw _ hrun
    dsimp only at hrun
    split at hrun
    · cases hrun
      exact U.settled_apart (Apart.next w) hw
    · cases hrun

/-- The loop over the due items keeps the discipline: each turn of the item is a section. -/
theorem sectioned_itemsAt {now : ℤ} (began : Option ℕ) (due : List MarketWatch)
    {f : ℕ → Located β}
    (hf : ∀ n, Sectioned U.discipline none (f n)) :
    Sectioned U.discipline none (itemsAt env now began due >>= f) := by
  induction due generalizing began f with
  | nil => exact hf 0
  | cons watch rest ih =>
    rw [itemsAt, Coro.bind_assoc]
    have hrest : ∀ b : Bool, Sectioned U.discipline none
        ((do
          let others ← itemsAt env now none rest
          return (if b then 1 else 0) + others) >>= f) := by
      intro b
      rw [Coro.bind_assoc]
      exact ih none fun n => hf _
    by_cases haoid : watch.aoid = aoid
    · subst haoid
      exact U.sectioned_pollItem rfl hrest
    · refine U.sectioned_elsewhere (keeps_pollItem ?_) ?_ hrest
      · rintro op ((rfl | rfl | rfl | ⟨p, rfl | rfl⟩ | rfl) | rfl) <;> exact haoid
      · rintro now' heq
        cases heq
        exact haoid rfl

theorem sectioned_cycleAt : Sectioned U.discipline none (cycleAt env) := by
  have hselect : Keeps (Elsewhere aoid) (selectDue env) :=
    keeps_selectDue (fun _ => trivial) trivial
  refine U.sectioned_elsewhere hselect (by simp) fun due => ?_
  refine U.sectioned_itemsAt (some due.began) due.items fun updated => ?_
  refine U.sectioned_elsewhere (keeps_announceCycle due updated) (by simp) fun _ => ?_
  exact .finished rfl

end Cycle

section Schedules
variable {ι : Type} [DecidableEq ι]

/-- The condition on the schedule is what the discipline of the sections asks for. -/
theorem admits_of_disciplined {P : Pool ι (Call × Place) World PyErr PollSummary} {i : ι}
    (h : Disciplined env P i) : Admits U.discipline P i := by
  intro call hcall
  obtain ⟨name, place⟩ := call
  unfold Disciplined at h
  rw [hcall] at h
  cases place with
  | selecting | announcing => exact ⟨by cases name <;> simp [discipline], by simp [discipline, inTurn]⟩
  | polling now a =>
    by_cases hname : name = .getOrders
    · subst hname
      refine ⟨fun hopens => ?_, by simp [discipline, inTurn]⟩
      obtain rfl : a = aoid := by simpa [discipline] using hopens
      refine ⟨h.1, ?_⟩
      rintro j hji ⟨other, hother, hwithin⟩
      have hnot := h.2 j hji
      rw [hother] at hnot
      have hin : inTurn a other = true := hwithin
      simp [hin] at hnot
    · refine ⟨fun hopens => by cases name <;> simp_all [discipline], fun hreturns => ?_⟩
      cases name <;> first | exact h | simp_all [discipline]

/-- What cycles keep up is safe after every disciplined schedule. -/
theorem safe_of_disciplined {w : World} {schedule : List ι} (hw : U.settled w)
    (h : Pool.Respects (Disciplined env) (Pool.start w fun _ => cycleAt env) schedule) :
    U.safe ((Pool.start w fun _ : ι => pollMarket env).exec schedule).shared := by
  have hadmits : Pool.Respects (Admits U.discipline) (Pool.start w fun _ => cycleAt env)
      schedule := h.mono fun P i => U.admits_of_disciplined
  have hsafe := exec_safe hw (fun _ => U.sectioned_cycleAt) hadmits
  rw [Pool.shared_exec_relabel Prod.fst (Pool.start w fun _ : ι => cycleAt env) schedule]
  · exact hsafe
  · rfl
  · intro i
    exact (relabel_cycleAt env).symm

end Schedules

end Upkeep

end AoMarket.CycleSections
