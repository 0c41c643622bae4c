import AoMarket.PyText
import Mathlib.Data.List.Dedup

/-!
Order books as gmi/client.py hands them on: the fields are whatever the order
service's JSON held. `Order` is the well-typed view of one entry, and at the same
time its identity: side, price, QL or QL range, count and trader. The
fingerprints of _detect_new_orders are texts; on well-typed orders they are equal
exactly for equal identities.
-/

namespace AoMarket.OrderBook

open PyNumber PyText

structure SellOrder where
  price : PyVal
  ql : PyVal
  count : PyVal
  seller : PyVal

structure BuyOrder where
  price : PyVal
  minQl : PyVal
  maxQl : PyVal
  count : PyVal
  buyer : PyVal

structure Orders where
  sellOrders : List SellOrder
  buyOrders : List BuyOrder

inductive Side where
  | sell | buy
deriving DecidableEq, Repr

structure NewOrder where
  side : Side
  price : PyVal
  minQl : PyVal
  maxQl : PyVal

def SellOrder.fingerprint (py : Runtime) (o : SellOrder) : String :=
  let f := PyVal.format py
  s!"sell|{f o.price}|{f o.ql}|{f o.count}|{f o.seller}"

def BuyOrder.fingerprint (py : Runtime) (o : BuyOrder) : String :=
  let f := PyVal.format py
  s!"buy|{f o.price}|{f o.minQl}|{f o.maxQl}|{f o.count}|{f o.buyer}"

/-- The assignments to `fingerprint_map`, in source order. -/
def Orders.entries (py : Runtime) (orders : Orders) : List (String × NewOrder) :=
  orders.sellOrders.map (fun o => (o.fingerprint py, ⟨.sell, o.price, o.ql, o.ql⟩)) ++
    orders.buyOrders.map fun o => (o.fingerprint py, ⟨.buy, o.price, o.minQl, o.maxQl⟩)

/-- `fingerprint_map[fp]`: the last assignment to the key. -/
def Orders.fingerprintMap (py : Runtime) (orders : Orders) (fp : String) : Option NewOrder :=
  (orders.entries py).reverse.lookup fp

def Orders.fingerprints (py : Runtime) (orders : Orders) : List String :=
  ((orders.entries py).map Prod.fst).dedup

/-! Well-typed books -/

inductive Order where
  | sell (price ql count : ℤ) (seller : String)
  | buy (price minQl maxQl count : ℤ) (buyer : String)
deriving DecidableEq, Repr

namespace Order

def fingerprint : Order → String
  | sell price ql count seller => s!"sell|{price}|{ql}|{count}|{seller}"
  | buy price minQl maxQl count buyer => s!"buy|{price}|{minQl}|{maxQl}|{count}|{buyer}"

def newOrder : Order → NewOrder
  | sell price ql _ _ => ⟨.sell, .num (.int price), .num (.int ql), .num (.int ql)⟩
  | buy price minQl maxQl _ _ =>
    ⟨.buy, .num (.int price), .num (.int minQl), .num (.int maxQl)⟩

end Order

def SellOrder.order? (o : SellOrder) : Option Order :=
  match o.price, o.ql, o.count, o.seller with
  | .num (.int price), .num (.int ql), .num (.int count), .str seller =>
    some (.sell price ql count seller)
  | _, _, _, _ => none

def BuyOrder.order? (o : BuyOrder) : Option Order :=
  match o.price, o.minQl, o.maxQl, o.count, o.buyer with
  | .num (.int price), .num (.int minQl), .num (.int maxQl), .num (.int count), .str buyer =>
    some (.buy price minQl maxQl count buyer)
  | _, _, _, _, _ => none

def Orders.orders (o : Orders) : List Order :=
  o.sellOrders.filterMap SellOrder.order? ++ o.buyOrders.filterMap BuyOrder.order?

def Orders.WellTyped (o : Orders) : Prop :=
  (∀ s ∈ o.sellOrders, s.order?.isSome) ∧ ∀ b ∈ o.buyOrders, b.order?.isSome

instance (o : Orders) : Decidable o.WellTyped := by
  unfold Orders.WellTyped
  infer_instance

theorem SellOrder.order?_eq_some {s : SellOrder} {o : Order} (h : s.order? = some o) :
    ∃ price ql count seller, o = .sell price ql count seller ∧
      s = ⟨.num (.int price), .num (.int ql), .num (.int count), .str seller⟩ := by
  obtain ⟨p, q, c, t⟩ := s
  simp only [SellOrder.order?] at h
  split at h
  · cases h
    exact ⟨_, _, _, _, rfl, rfl⟩
  · cases h

theorem BuyOrder.order?_eq_some {b : BuyOrder} {o : Order} (h : b.order? = some o) :
    ∃ price minQl maxQl count buyer, o = .buy price minQl maxQl count buyer ∧
      b = ⟨.num (.int price), .num (.int minQl), .num (.int maxQl), .num (.int count),
        .str buyer⟩ := by
  obtain ⟨p, l, u, c, t⟩ := b
  simp only [BuyOrder.order?] at h
  split at h
  · cases h
    exact ⟨_, _, _, _, _, rfl, rfl⟩
  · cases h

theorem filterMap_map_some {α β γ : Type} {f : α → Option β} {g : α → γ} {h : β → γ}
    {l : List α} (hl : ∀ a ∈ l, (f a).isSome) (hg : ∀ a b, f a = some b → g a = h b) :
    l.map g = (l.filterMap f).map h := by
  induction l with
  | nil => rfl
  | cons a rest ih =>
    obtain ⟨b, hb⟩ := Option.isSome_iff_exists.mp (hl a List.mem_cons_self)
    rw [List.filterMap_cons_some hb, List.map_cons, List.map_cons, hg a b hb,
      ih fun x hx => hl x (List.mem_cons_of_mem a hx)]

/-- A well-typed book assigns to each identity's fingerprint the identity's own order. -/
theorem Orders.entries_eq {py : Runtime} {o : Orders} (h : o.WellTyped) :
    o.entries py = o.orders.map fun x => (x.fingerprint, x.newOrder) := by
  unfold Orders.entries Orders.orders
  rw [List.map_append]
  congr 1
  · apply filterMap_map_some h.1
    intro s x hs
    obtain ⟨_, _, _, _, rfl, rfl⟩ := SellOrder.order?_eq_some hs
    rfl
  · apply filterMap_map_some h.2
    intro b x hb
    obtain ⟨_, _, _, _, _, rfl, rfl⟩ := BuyOrder.order?_eq_some hb
    rfl

/-! Fingerprints identify orders -/

private theorem append_bar_inj {x y x' y' : List Char} (hx : '|' ∉ x) (hx' : '|' ∉ x')
    (h : x ++ '|' :: y = x' ++ '|' :: y') : x = x' ∧ y = y' := by
  induction x generalizing x' with
  | nil =>
    cases x' with
    | nil => exact ⟨rfl, (List.cons.inj h).2⟩
    | cons c rest =>
      have hc := (List.cons.inj h).1
      exact absurd (hc ▸ List.mem_cons_self) hx'
  | cons c rest ih =>
    cases x' with
    | nil =>
      have hc := (List.cons.inj h).1
      exact absurd (hc ▸ List.mem_cons_self) hx
    | cons c' rest' =>
      obtain ⟨hc, htail⟩ := List.cons.inj h
      have hr := ih (fun hm => hx (List.mem_cons_of_mem c hm))
        (fun hm => hx' (List.mem_cons_of_mem c' hm)) htail
      exact ⟨by rw [hc, hr.1], hr.2⟩

/-- An integer field up to its bar can be read back. -/
private theorem field_inj {m n : ℤ} {y y' : List Char}
    (h : (toString m).toList ++ '|' :: y = (toString n).toList ++ '|' :: y') :
    m = n ∧ y = y' := by
  obtain ⟨hx, hy⟩ :=
    append_bar_inj (bar_not_mem_toString_int m) (bar_not_mem_toString_int n) h
  exact ⟨toString_int_injective (String.toList_inj.mp hx), hy⟩

theorem Order.fingerprint_sell_toList (price ql count : ℤ) (seller : String) :
    (Order.sell price ql count seller).fingerprint.toList =
      "sell|".toList ++ ((toString price).toList ++ '|' :: ((toString ql).toList ++
        '|' :: ((toString count).toList ++ '|' :: seller.toList))) := by
  simp only [Order.fingerprint, String.toList_append, List.append_assoc]
  rfl

theorem Order.fingerprint_buy_toList (price minQl maxQl count : ℤ) (buyer : String) :
    (Order.buy price minQl maxQl count buyer).fingerprint.toList =
      "buy|".toList ++ ((toString price).toList ++ '|' :: ((toString minQl).toList ++
        '|' :: ((toString maxQl).toList ++ '|' :: ((toString count).toList ++
          '|' :: buyer.toList)))) := by
  simp only [Order.fingerprint, String.toList_append, List.append_assoc]
  rfl

/-- The fields before the trader hold no separator, so the first separators end them, whatever
the name holds. -/
theorem Order.fingerprint_injective : Function.Injective Order.fingerprint := by
  intro a b h
  have hl := congrArg String.toList h
  cases a with
  | sell p q c t =>
    cases b with
    | sell p' q' c' t' =>
      rw [fingerprint_sell_toList, fingerprint_sell_toList] at hl
      obtain ⟨rfl, h1⟩ := field_inj (List.append_cancel_left hl)
      obtain ⟨rfl, h2⟩ := field_inj h1
      obtain ⟨rfl, h3⟩ := field_inj h2
      rw [String.toList_inj.mp h3]
    | buy p' l' u' c' t' =>
      rw [fingerprint_sell_toList, fingerprint_buy_toList] at hl
      exact absurd (List.cons.inj hl).1 (by decide)
  | buy p l u c t =>
    cases b with
    | sell p' q' c' t' =>
      rw [fingerprint_sell_toList, fingerprint_buy_toList] at hl
      exact absurd (List.cons.inj hl).1 (by decide)
    | buy p' l' u' c' t' =>
      rw [fingerprint_buy_toList, fingerprint_buy_toList] at hl
      obtain ⟨rfl, h1⟩ := field_inj (List.append_cancel_left hl)
      obtain ⟨rfl, h2⟩ := field_inj h1
      obtain ⟨rfl, h3⟩ := field_inj h2
      obtain ⟨rfl, h4⟩ := field_inj h3
      rw [String.toList_inj.mp h4]

end AoMarket.OrderBook
