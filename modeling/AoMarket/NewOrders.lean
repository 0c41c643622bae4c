import AoMarket.Fingerprints
import AoMarket.PollTurn
import Mathlib.Logic.Relation
import Mathlib.Data.Set.Image

/-!
What successive polls of one item hand to notify_subscribers. The seen set after
a poll is the set of fingerprints of its book, whatever ran since; the next poll
hands on exactly the identities that are not among them, unless that set is empty,
which the program takes for "never polled".
-/

namespace AoMarket.NewOrders

open Coroutine Relational Models Database OrderBook PyText Environment MarketRepo Polling Writes
  ServiceWrites Fingerprints PollTurn

variable {env : Env}

/-! The handed orders of one book -/

/-- The orders handed on are the identities that were not seen. -/
theorem mem_newOrders {book : Orders} (h : book.WellTyped) {seen : List String} {fp : String}
    {o : NewOrder} : (fp, o) ∈ newOrders env book seen ↔
      fp ∉ seen ∧ ∃ x ∈ book.orders, x.fingerprint = fp ∧ x.newOrder = o := by
  unfold newOrders
  simp only [List.mem_filterMap, Option.map_eq_some_iff, Prod.mk.injEq, mem_newFingerprints]
  constructor
  · rintro ⟨fp', ⟨_, hnew⟩, o', hmap, rfl, rfl⟩
    exact ⟨hnew, (fingerprintMap_eq_some h).mp hmap⟩
  · rintro ⟨hnew, x, hx, rfl, rfl⟩
    refine ⟨x.fingerprint, ⟨(mem_fingerprints h).mpr ⟨x, hx, rfl⟩, hnew⟩, x.newOrder, ?_, rfl, rfl⟩
    exact (fingerprintMap_eq_some h).mpr ⟨x, hx, rfl, rfl⟩

/-! One successful poll -/

def notifiedOrders (aoid : ℤ) : Event → Option Fingerprinted
  | .notified a orders => if a = aoid then some orders else none
  | _ => none

/-- A poll of the item that returned, with the well-typed book it was given. -/
structure Poll (env : Env) (aoid : ℤ) where
  now : ℤ
  began : Option ℕ
  watch : MarketWatch
  start : World
  stop : World
  book : Orders
  item : watch.aoid = aoid
  fetched : env.getOrders start.tick aoid = .ok (some book)
  typed : book.WellTyped
  ran : (pollItem env now began watch).run start = (.ok true, stop)

def Poll.of_run {aoid : ℤ} (now : ℤ) (began : Option ℕ) (watch : MarketWatch) (start : World)
    (book : Orders) (item : watch.aoid = aoid) (fetched : env.getOrders start.tick aoid = .ok (some book))
    (typed : book.WellTyped) (ran : ((pollItem env now began watch).run start).1 = .ok true) :
    Poll env aoid :=
  ⟨now, began, watch, start, ((pollItem env now began watch).run start).2, book, item, fetched, typed,
    Prod.ext ran rfl⟩

def Poll.calls {aoid : ℤ} (p : Poll env aoid) : List Fingerprinted :=
  (p.stop.log.drop p.start.log.length).filterMap (notifiedOrders aoid)

theorem notified_of_plain {aoid : ℤ} {e : Event} (h : plain e = true) :
    notifiedOrders aoid e = none := by
  cases e <;> simp [plain, notifiedOrders] at h ⊢

theorem notified_of_alertWrites {aoid : ℤ} {op : Write} {db db' : Db} {note : List Event}
    (hop : AlertWrites aoid op) (h : Effect op db db' note) (e : Event) (he : e ∈ note) :
    notifiedOrders aoid e = none := by
  obtain ⟨player, rfl | rfl⟩ := hop
  · cases h
    simp at he
    rcases he with rfl | rfl <;> rfl
  · cases h
    simp at he
    rw [he]
    rfl

/-- The calls made between reading the seen set and replacing it. -/
theorem run_alertNew_ok {aoid : ℤ} {book : Orders} {name : String} {seen : List String}
    {w w' : World} (h : (alertNew env aoid book name seen).run w = (.ok (), w')) :
    ∃ note, w'.log = w.log ++ note ∧ note.filterMap (notifiedOrders aoid) =
      if seen = [] ∨ newFingerprints env book seen = [] then []
      else [newOrders env book seen] := by
  by_cases hskip : seen = [] ∨ newFingerprints env book seen = []
  · rw [alertNew_of_skip hskip] at h
    cases h
    exact ⟨[], by simp, by simp [hskip]⟩
  · obtain ⟨hseen, hnew⟩ := not_or.mp hskip
    rw [alertNew_of_new hseen hnew] at h
    obtain ⟨n, w₁, hnotify, hw⟩ := Coro.run_bind_eq_ok h
    cases hw
    obtain ⟨subs, w₂, hsubs, heach⟩ := Coro.run_bind_eq_ok hnotify
    obtain ⟨_, rfl⟩ := run_query_eq_ok hsubs
    obtain ⟨note, hlog, hnote⟩ := (keeps_notifyEach (fun op hop => hop) name
      (newOrders env book seen) subs).run_log (fun e => notified_of_plain)
      (fun op db db' note hop heff => notified_of_alertWrites hop heff) _
    rw [heach] at hlog
    have hhead : notifiedOrders aoid (.notified aoid (newOrders env book seen)) =
        some (newOrders env book seen) := if_pos rfl
    refine ⟨.notified aoid (newOrders env book seen) :: note, ?_, ?_⟩
    · exact hlog.trans (by rw [List.append_assoc, List.singleton_append])
    · rw [if_neg hskip, List.filterMap_cons_some hhead, List.filterMap_eq_nil_iff.mpr hnote]

/-- A poll replaces the seen set by the fingerprints of its book, and makes the calls
its own seen set asks for. -/
theorem run_detectNewOrders_ok {aoid : ℤ} {book : Orders} {name : String} {w w' : World}
    (h : (detectNewOrders env aoid book name).run w = (.ok (), w')) :
    seenFingerprints w'.db aoid = (book.fingerprints env.py).dedup ∧
      ∃ note, w'.log = w.log ++ note ∧ note.filterMap (notifiedOrders aoid) =
        if seenFingerprints w.db aoid = [] ∨
            newFingerprints env book (seenFingerprints w.db aoid) = [] then []
        else [newOrders env book (seenFingerprints w.db aoid)] := by
  rw [detectNewOrders_eq] at h
  obtain ⟨seen, w₁, hseen, h⟩ := Coro.run_bind_eq_ok h
  obtain ⟨_, w₂, halert, hreplace⟩ := Coro.run_bind_eq_ok h
  obtain ⟨hget, rfl⟩ := run_query_eq_ok hseen
  cases hget
  obtain ⟨note, hlog₂, hnote⟩ := run_alertNew_ok halert
  by_cases hstore : StoresSeen env book w₂.tick
  · rw [run_replaceSeen hstore] at hreplace
    cases hreplace
    refine ⟨seen_replaceSeen _ _ _, note ++ [.replaced aoid (book.fingerprints env.py)], ?_, ?_⟩
    · simp [hlog₂]
    · simpa [List.filterMap_append, List.filterMap_cons, notifiedOrders] using hnote
  · obtain ⟨e, hfail⟩ := @run_replaceSeen_error env aoid book w₂ hstore
    rw [hfail] at hreplace
    cases hreplace

/-- A poll stores its book as the seen set, and hands on what is new against the set before,
unless that was empty. -/
theorem Poll.report {aoid : ℤ} (p : Poll env aoid) :
    seenFingerprints p.stop.db aoid = (p.book.fingerprints env.py).dedup ∧
      p.calls = if seenFingerprints p.start.db aoid = [] ∨
          newFingerprints env p.book (seenFingerprints p.start.db aoid) = [] then []
        else [newOrders env p.book (seenFingerprints p.start.db aoid)] := by
  obtain ⟨now, began, watch, w, w', book, rfl, hbook, htyped, hran⟩ := p
  rw [pollItem_eq] at hran
  obtain ⟨b, w₁, hexamine, hupdate⟩ := Coro.run_bind_eq_ok hran
  by_cases hs : StoresSnapshot env watch book w.db (w.tick + 1)
  · obtain ⟨db, hsame, hrun⟩ := @run_examine_stored env now began watch w book hbook hs
    rw [hrun] at hexamine
    obtain ⟨_, w₂, hdetect, hw₂⟩ := Coro.run_bind_eq_ok hexamine
    cases hw₂
    obtain ⟨hseen, note, hlog, hnote⟩ := run_detectNewOrders_ok hdetect
    rw [hsame.seen] at hnote
    obtain ⟨_, w₃, hlast, hw₃⟩ := Coro.run_bind_eq_ok hupdate
    cases hw₃
    rw [run_updateLastPolled] at hlast
    split at hlast
    · cases hlast
    · cases hlast
      refine ⟨hseen, ?_⟩
      rw [← hnote]
      simp [Poll.calls, hlog, List.filterMap_cons, notifiedOrders]
  · obtain ⟨e, w₂, hrun, _⟩ := @run_examine_refused env now began watch w book hbook hs
    rw [hrun] at hexamine
    cases hexamine

/-! Polls in a row -/

/-- Calls without a replacement of the item's seen set lie between two polls: any
other operations, also several at a time. -/
def Then {aoid : ℤ} (p q : Poll env aoid) : Prop :=
  Relation.ReflTransGen (Steps (· ≠ .replaceSeen aoid)) p.stop q.start

theorem seen_of_steps {aoid : ℤ} {w w' : World}
    (h : Relation.ReflTransGen (Steps (· ≠ .replaceSeen aoid)) w w') :
    seenFingerprints w'.db aoid = seenFingerprints w.db aoid := by
  induction h with
  | refl => rfl
  | tail _ hstep ih =>
    obtain ⟨_, note, _, ⟨hdb, _⟩ | ⟨op, hop, heffect⟩⟩ := hstep
    · rw [hdb, ih]
    · rw [heffect.seen_eq hop, ih]

/-- What runs alone between two polls may be any coroutine that stores no seen set. -/
theorem steps_of_keeps {α : Type} {A : Write → Prop} {p : M α} (h : Keeps A p) (w : World) :
    Relation.ReflTransGen (Steps A) w (p.run w).2 :=
  h.run_of_steps (fun _ => Relation.ReflTransGen.refl) Relation.ReflTransGen.trans
    (fun _ _ => Relation.ReflTransGen.single) w

/-- The orders of the book whose identity the book before did not hold. -/
def fresh {aoid : ℤ} (p q : Poll env aoid) : Set Order :=
  {x | x ∈ q.book.orders ∧ x ∉ p.book.orders}

def Poll.handed {aoid : ℤ} (p : Poll env aoid) : Set (String × NewOrder) :=
  {o | ∃ call ∈ p.calls, o ∈ call}

/-- The second poll hands on exactly the fresh orders, in a call if there are any. -/
def HandsNew {aoid : ℤ} (p q : Poll env aoid) : Prop :=
  q.handed = (fun x => (x.fingerprint, x.newOrder)) '' fresh p q ∧
    ((fresh p q).Nonempty → q.calls ≠ [])

/-- The orders asked for by a seen set that is the set of fingerprints of a book. -/
theorem mem_newOrders_dedup {book prev : Orders} (h : book.WellTyped) (hprev : prev.WellTyped)
    {fp : String} {o : NewOrder} :
    (fp, o) ∈ newOrders env book (prev.fingerprints env.py).dedup ↔
      ∃ x, (x ∈ book.orders ∧ x ∉ prev.orders) ∧ (x.fingerprint, x.newOrder) = (fp, o) := by
  rw [mem_newOrders h, List.mem_dedup, mem_fingerprints hprev]
  constructor
  · rintro ⟨hnew, x, hx, rfl, rfl⟩
    exact ⟨x, ⟨hx, fun hmem => hnew ⟨x, hmem, rfl⟩⟩, rfl⟩
  · rintro ⟨x, ⟨hx, hnew⟩, heq⟩
    obtain ⟨rfl, rfl⟩ := Prod.mk.inj heq
    refine ⟨?_, x, hx, rfl, rfl⟩
    rintro ⟨y, hy, hxy⟩
    exact hnew (Order.fingerprint_injective hxy ▸ hy)

theorem newOrders_nil_of_newFingerprints {book : Orders} {seen : List String}
    (h : newFingerprints env book seen = []) : newOrders env book seen = [] := by
  rw [newOrders, h]
  rfl

theorem fingerprints_eq_nil {book : Orders} (h : book.WellTyped) :
    (book.fingerprints env.py).dedup = [] ↔ book.orders = [] := by
  rw [List.dedup_eq_nil, List.eq_nil_iff_forall_not_mem, List.eq_nil_iff_forall_not_mem]
  constructor
  · intro hnone x hx
    exact hnone _ ((mem_fingerprints h).mpr ⟨x, hx, rfl⟩)
  · intro hnone fp hfp
    obtain ⟨x, hx, _⟩ := (mem_fingerprints h).mp hfp
    exact hnone x hx

variable {aoid : ℤ}

/-- After an empty book nothing is handed on. -/
theorem handed_of_empty {p q : Poll env aoid} (h : Then p q) (hp : p.book.orders = []) :
    q.calls = [] := by
  rw [q.report.2, if_pos]
  left
  rw [seen_of_steps h, p.report.1]
  exact (fingerprints_eq_nil p.typed).mpr hp

/-- After a book with orders the fresh ones are handed on. -/
theorem handed_of_nonempty {p q : Poll env aoid} (h : Then p q) (hp : p.book.orders ≠ []) :
    HandsNew p q := by
  have hseen : seenFingerprints q.start.db aoid = (p.book.fingerprints env.py).dedup :=
    (seen_of_steps h).trans p.report.1
  have hne : seenFingerprints q.start.db aoid ≠ [] := by
    rw [hseen]
    exact fun hnil => hp ((fingerprints_eq_nil p.typed).mp hnil)
  have hcalls := q.report.2
  have hhanded : ∀ fp o, (fp, o) ∈ q.handed ↔
      (fp, o) ∈ newOrders env q.book (seenFingerprints q.start.db aoid) := by
    intro fp o
    unfold Poll.handed
    rw [hcalls]
    by_cases hnew : newFingerprints env q.book (seenFingerprints q.start.db aoid) = []
    · simp [hnew, newOrders_nil_of_newFingerprints hnew]
    · simp [hnew, hne]
  constructor
  · ext ⟨fp, o⟩
    rw [hhanded, hseen, mem_newOrders_dedup q.typed p.typed]
    rfl
  · rintro ⟨x, hx, hnew⟩ hnone
    have hmem : (x.fingerprint, x.newOrder) ∈ q.handed := by
      rw [hhanded, hseen, mem_newOrders_dedup q.typed p.typed]
      exact ⟨x, ⟨hx, hnew⟩, rfl⟩
    obtain ⟨call, hcall, _⟩ := hmem
    rw [hnone] at hcall
    cases hcall

/-- Among successive successful polls of an item, one hands on exactly the orders the
book before did not hold if and only if that book was not empty or its own is. -/
theorem handsNew_iff {polls : List (Poll env aoid)} (h : polls.IsChain Then) {k : ℕ}
    {p q : Poll env aoid} (hp : polls[k]? = some p) (hq : polls[k + 1]? = some q) :
    HandsNew p q ↔ p.book.orders ≠ [] ∨ q.book.orders = [] := by
  have hthen : Then p q := by
    obtain ⟨hk, rfl⟩ := List.getElem?_eq_some_iff.mp hp
    obtain ⟨hk', rfl⟩ := List.getElem?_eq_some_iff.mp hq
    exact List.isChain_iff_getElem.mp h k hk'
  constructor
  · rintro ⟨-, hcall⟩
    by_contra hneither
    obtain ⟨hpempty, hq⟩ := not_or.mp hneither
    have hpempty : p.book.orders = [] := not_not.mp hpempty
    obtain ⟨x, hx⟩ := List.exists_mem_of_ne_nil _ hq
    refine hcall ⟨x, hx, ?_⟩ (handed_of_empty hthen hpempty)
    simp [hpempty]
  · rintro (hne | hempty)
    · exact handed_of_nonempty hthen hne
    · by_cases hp : p.book.orders = []
      · have hcalls := handed_of_empty hthen hp
        have hfresh : fresh p q = ∅ := by
          ext x
          simp [fresh, hempty]
        refine ⟨?_, by simp [hfresh]⟩
        rw [hfresh, Set.image_empty]
        ext o
        simp [Poll.handed, hcalls]
      · exact handed_of_nonempty hthen hp

/-! An order that comes second, and one that is sold and offered again -/

def ring : MarketWatch := ⟨1, "Ring", 1, none, 0, none, false⟩

def tracked : Db where
  toTables := { watch := [ring] }
  sound := by constructor <;> simp [Keyed, Refers]

def offered : Orders :=
  { sellOrders := [⟨.num (.int 500), .num (.int 10), .num (.int 1), .str "Bob"⟩], buyOrders := [] }

def widened : Orders :=
  { offered with
    sellOrders := offered.sellOrders ++
      [⟨.num (.int 400), .num (.int 10), .num (.int 2), .str "Eve"⟩] }

def restocking : Env :=
  { Env.calm with
    getOrders := fun tick _ => .ok (some (if tick < 5 then offered else widened)) }

def stocked : Poll restocking 1 :=
  .of_run 0 none ring { db := tracked } offered rfl rfl (by decide) rfl

def restocked : Poll restocking 1 :=
  .of_run 1 none ring stocked.stop widened rfl rfl (by decide) rfl

/-- Eve's order was not there before, and it alone is handed on. -/
theorem restocked_handsNew :
    fresh stocked restocked = {.sell 400 10 2 "Eve"} ∧ HandsNew stocked restocked := by
  have hchain : [stocked, restocked].IsChain Then := by
    simp only [List.isChain_cons_cons, List.IsChain.singleton, and_true]
    exact Relation.ReflTransGen.refl
  refine ⟨?_, (handsNew_iff (k := 0) hchain rfl rfl).mpr (Or.inl (by decide))⟩
  have hbefore : stocked.book.orders = [.sell 500 10 1 "Bob"] := by decide
  have hafter : restocked.book.orders = [.sell 500 10 1 "Bob", .sell 400 10 2 "Eve"] := by decide
  ext x
  change (x ∈ restocked.book.orders ∧ x ∉ stocked.book.orders) ↔ _
  rw [hbefore, hafter, Set.mem_singleton_iff]
  simp only [List.mem_cons, List.not_mem_nil, or_false]
  constructor
  · rintro ⟨rfl | rfl, hne⟩
    · exact absurd rfl hne
    · rfl
  · rintro rfl
    exact ⟨Or.inr rfl, by simp⟩

def refilling : Env :=
  { Env.calm with
    getOrders := fun tick _ => .ok (some (if tick = 5 then ⟨[], []⟩ else offered)) }

def opening : Poll refilling 1 :=
  .of_run 0 none ring { db := tracked } offered rfl rfl (by decide) rfl

def emptied : Poll refilling 1 :=
  .of_run 1 none ring opening.stop ⟨[], []⟩ rfl rfl (by decide) rfl

def refilled : Poll refilling 1 :=
  .of_run 2 none ring emptied.stop offered rfl rfl (by decide) rfl

theorem polls_chain : [opening, emptied, refilled].IsChain Then := by
  simp only [List.isChain_cons_cons, List.IsChain.singleton, and_true]
  exact ⟨Relation.ReflTransGen.refl, Relation.ReflTransGen.refl⟩

/-- The order that comes back after an empty book is handed to nobody. -/
theorem refilled_not_handsNew :
    [opening, emptied, refilled].IsChain Then ∧ ¬ HandsNew emptied refilled := by
  refine ⟨polls_chain, ?_⟩
  rintro ⟨-, hcall⟩
  have hfresh : (fresh emptied refilled).Nonempty :=
    ⟨.sell 500 10 1 "Bob", by decide, by decide⟩
  exact hcall hfresh (handed_of_empty Relation.ReflTransGen.refl rfl)

end AoMarket.NewOrders
