import AoMarket.OrderBook

/-!
The fingerprint map of _detect_new_orders. The text of an order determines its side
and all its fields, although the trader's name may hold the separator, so the map has
one entry for each identity of the book, and later assignments only repeat it.
-/

namespace AoMarket.Fingerprints

open PyNumber PyText OrderBook

variable {py : Runtime}

/-! Entries of a book -/

inductive Entry where
  | sell (o : SellOrder)
  | buy (o : BuyOrder)

namespace Entry

def fingerprint (py : Runtime) : Entry → String
  | sell o => o.fingerprint py
  | buy o => o.fingerprint py

def order? : Entry → Option Order
  | sell o => o.order?
  | buy o => o.order?

/-- What the loops of _detect_new_orders file the entry as. -/
def newOrder : Entry → NewOrder
  | sell o => ⟨.sell, o.price, o.ql, o.ql⟩
  | buy o => ⟨.buy, o.price, o.minQl, o.maxQl⟩

def WellTyped (e : Entry) : Prop := e.order?.isSome = true

/-- The same side, price, QL or QL bounds, count and trader. -/
def Agrees : Entry → Entry → Prop
  | sell o, sell o' => o.price = o'.price ∧ o.ql = o'.ql ∧ o.count = o'.count ∧ o.seller = o'.seller
  | buy o, buy o' =>
    o.price = o'.price ∧ o.minQl = o'.minQl ∧ o.maxQl = o'.maxQl ∧ o.count = o'.count ∧
      o.buyer = o'.buyer
  | _, _ => False

theorem of_order? {e : Entry} {x : Order} (h : e.order? = some x) :
    e.fingerprint py = x.fingerprint ∧ e.newOrder = x.newOrder := by
  cases e with
  | sell o =>
    obtain ⟨_, _, _, _, rfl, rfl⟩ := SellOrder.order?_eq_some h
    exact ⟨rfl, rfl⟩
  | buy o =>
    obtain ⟨_, _, _, _, _, rfl, rfl⟩ := BuyOrder.order?_eq_some h
    exact ⟨rfl, rfl⟩

/-- Well-typed entries agree when they are the same order. -/
theorem agrees_iff {e e' : Entry} {x x' : Order} (h : e.order? = some x) (h' : e'.order? = some x') :
    e.Agrees e' ↔ x = x' := by
  cases e with
  | sell o =>
    obtain ⟨p, q, c, t, rfl, rfl⟩ := SellOrder.order?_eq_some h
    cases e' with
    | sell o' =>
      obtain ⟨p', q', c', t', rfl, rfl⟩ := SellOrder.order?_eq_some h'
      simp [Agrees]
    | buy o' =>
      obtain ⟨p', l', u', c', t', rfl, rfl⟩ := BuyOrder.order?_eq_some h'
      simp [Agrees]
  | buy o =>
    obtain ⟨p, l, u, c, t, rfl, rfl⟩ := BuyOrder.order?_eq_some h
    cases e' with
    | sell o' =>
      obtain ⟨p', q', c', t', rfl, rfl⟩ := SellOrder.order?_eq_some h'
      simp [Agrees]
    | buy o' =>
      obtain ⟨p', l', u', c', t', rfl, rfl⟩ := BuyOrder.order?_eq_some h'
      simp [Agrees]

theorem fingerprint_eq_iff {e e' : Entry} (h : e.WellTyped) (h' : e'.WellTyped) :
    e.fingerprint py = e'.fingerprint py ↔ e.Agrees e' := by
  obtain ⟨x, hx⟩ := Option.isSome_iff_exists.mp h
  obtain ⟨x', hx'⟩ := Option.isSome_iff_exists.mp h'
  rw [agrees_iff hx hx', (of_order? hx).1, (of_order? hx').1]
  exact Order.fingerprint_injective.eq_iff

end Entry

def entriesOf (book : Orders) : List Entry :=
  book.sellOrders.map Entry.sell ++ book.buyOrders.map Entry.buy

theorem entriesOf_wellTyped {book : Orders} (h : book.WellTyped) :
    ∀ e ∈ entriesOf book, e.WellTyped := by
  intro e he
  rcases List.mem_append.mp he with he | he
  · obtain ⟨o, ho, rfl⟩ := List.mem_map.mp he
    exact h.1 o ho
  · obtain ⟨o, ho, rfl⟩ := List.mem_map.mp he
    exact h.2 o ho

theorem mem_orders {book : Orders} {x : Order} :
    x ∈ book.orders ↔ ∃ e ∈ entriesOf book, e.order? = some x := by
  simp [Orders.orders, entriesOf, Entry.order?, or_and_right, exists_or]

/-! The map -/

theorem mem_fingerprints {book : Orders} (h : book.WellTyped) {fp : String} :
    fp ∈ book.fingerprints py ↔ ∃ x ∈ book.orders, x.fingerprint = fp := by
  unfold Orders.fingerprints
  rw [List.mem_dedup, Orders.entries_eq h]
  simp

/-- If a key always comes with the same value, the lookup finds every pair. -/
theorem lookup_eq_some_iff {β : Type} {l : List (String × β)}
    (h : ∀ k v v', (k, v) ∈ l → (k, v') ∈ l → v = v') {k : String} {v : β} :
    l.lookup k = some v ↔ (k, v) ∈ l := by
  induction l with
  | nil => simp
  | cons p rest ih =>
    obtain ⟨k', v'⟩ := p
    have hrest := ih fun k v v' hv hv' =>
      h k v v' (List.mem_cons_of_mem _ hv) (List.mem_cons_of_mem _ hv')
    by_cases hk : k = k'
    · subst hk
      rw [List.lookup_cons_self]
      constructor
      · intro heq
        cases heq
        exact List.mem_cons_self
      · intro hmem
        rw [h k v v' hmem List.mem_cons_self]
    · have hne : (k == k') = false := by simpa using hk
      rw [List.lookup_cons, hne]
      simp [hrest, hk]

/-- The map has an entry for each order of a well-typed book, filed under its text. -/
theorem fingerprintMap_eq_some {book : Orders} (h : book.WellTyped) {fp : String}
    {o : NewOrder} : book.fingerprintMap py fp = some o ↔
      ∃ x ∈ book.orders, x.fingerprint = fp ∧ x.newOrder = o := by
  unfold Orders.fingerprintMap
  rw [Orders.entries_eq h, lookup_eq_some_iff]
  · simp
  · intro k v v' hv hv'
    simp only [List.mem_reverse, List.mem_map, Prod.mk.injEq] at hv hv'
    obtain ⟨x, _, hx, rfl⟩ := hv
    obtain ⟨y, _, hy, rfl⟩ := hv'
    rw [Order.fingerprint_injective (hx.trans hy.symm)]

/-- The keys are the fingerprints of the identities, each once. -/
theorem fingerprints_eq {book : Orders} (h : book.WellTyped) :
    book.fingerprints py = book.orders.dedup.map Order.fingerprint := by
  have hkeys : (book.entries py).map Prod.fst = book.orders.map Order.fingerprint := by
    rw [Orders.entries_eq h, List.map_map]
    rfl
  rw [Orders.fingerprints, hkeys, List.dedup_map_of_injective Order.fingerprint_injective]

/-- Fingerprints of well-typed orders are equal exactly for orders that agree in all they hold, so
the map of a book has one key for each of its distinct orders, and files under it that order's
side, price and QL range. -/
theorem fingerprints_identify_orders (py : Runtime) :
    (∀ e e' : Entry, e.WellTyped → e'.WellTyped →
        (e.fingerprint py = e'.fingerprint py ↔ e.Agrees e')) ∧
      ∀ book : Orders, book.WellTyped →
        (book.fingerprints py).Nodup ∧
          (book.fingerprints py).length = book.orders.dedup.length ∧
          (∀ fp, fp ∈ book.fingerprints py ↔ (book.fingerprintMap py fp).isSome = true) ∧
          (∀ fp ∈ book.fingerprints py, ∃ e ∈ entriesOf book, e.fingerprint py = fp) ∧
          ∀ e ∈ entriesOf book, e.fingerprint py ∈ book.fingerprints py ∧
            book.fingerprintMap py (e.fingerprint py) = some e.newOrder := by
  refine ⟨fun e e' => Entry.fingerprint_eq_iff, fun book h => ⟨List.nodup_dedup _, ?_, ?_, ?_, ?_⟩⟩
  · rw [fingerprints_eq h, List.length_map]
  · intro fp
    rw [mem_fingerprints h, Option.isSome_iff_exists]
    constructor
    · rintro ⟨x, hx, hfp⟩
      exact ⟨x.newOrder, (fingerprintMap_eq_some h).mpr ⟨x, hx, hfp, rfl⟩⟩
    · rintro ⟨o, ho⟩
      obtain ⟨x, hx, hfp, _⟩ := (fingerprintMap_eq_some h).mp ho
      exact ⟨x, hx, hfp⟩
  · intro fp hfp
    obtain ⟨x, hx, hxfp⟩ := (mem_fingerprints h).mp hfp
    obtain ⟨e, he, hex⟩ := mem_orders.mp hx
    exact ⟨e, he, (Entry.of_order? hex).1.trans hxfp⟩
  · intro e he
    obtain ⟨x, hex⟩ := Option.isSome_iff_exists.mp (entriesOf_wellTyped h e he)
    have hx : x ∈ book.orders := mem_orders.mpr ⟨e, he, hex⟩
    obtain ⟨hfp, hnew⟩ := @Entry.of_order? py e x hex
    rw [hfp, hnew]
    exact ⟨(mem_fingerprints h).mpr ⟨x, hx, rfl⟩, (fingerprintMap_eq_some h).mpr ⟨x, hx, rfl, rfl⟩⟩

def barBook : Orders where
  sellOrders := [⟨.num (.int 5), .num (.int (-10)), .num (.int 1), .str "1|Bob"⟩,
    ⟨.num (.int 5), .num (.int (-10)), .num (.int 11), .str "Bob"⟩,
    ⟨.num (.int 5), .num (.int (-10)), .num (.int 1), .str "1|Bob"⟩]
  buyOrders := []

theorem barBook_fingerprints : (barBook.fingerprints .ascii).length = 2 ∧
    barBook.fingerprintMap .ascii "sell|5|-10|1|1|Bob" =
      some ⟨.sell, .num (.int 5), .num (.int (-10)), .num (.int (-10))⟩ := by
  have hbook := (fingerprints_identify_orders .ascii).2 barBook (by decide)
  have hmem : Entry.sell ⟨.num (.int 5), .num (.int (-10)), .num (.int 1), .str "1|Bob"⟩ ∈
      entriesOf barBook := List.mem_cons_self
  exact ⟨hbook.2.1.trans (by decide), (hbook.2.2.2.2 _ hmem).2⟩

end AoMarket.Fingerprints
