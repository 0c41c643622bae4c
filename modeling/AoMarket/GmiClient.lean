import AoMarket.BookNumbers

/-!
gmi/client.py: from the response of the order service to a book or `None`. What is
read of the document is looked up by name, so a missing field or a wrong container
is an exception and ends in `None`. What a field holds is never looked at.
-/

namespace AoMarket.GmiClient

open PyNumber PyText OrderBook Environment Rendering Polling BookNumbers

/-- `json` is what response.json() does: a document, or the exception it raises. -/
structure Response where
  status : ℕ
  json : Except PyErr PyVal

def raiseForStatus (response : Response) : Except PyErr Unit :=
  if 200 ≤ response.status ∧ response.status ≤ 299 then .ok () else .error .http

/-- The value under a name; the last one when the document repeats it. -/
def entry (name : String) : PyVal → Option PyVal
  | .dict kvs => kvs.reverse.lookup name
  | _ => none

/-- `v[name]`. -/
def subscript (v : PyVal) (name : String) : Except PyErr PyVal :=
  match v with
  | .dict _ =>
    match entry name v with
    | some x => .ok x
    | none => .error .key
  | _ => .error .type

/-- `for row in v`; `none` is TypeError. A text is walked by its characters and a
dictionary by its names. -/
def elements : PyVal → Option (List PyVal)
  | .list l => some l
  | .str s => some (s.toList.map fun c => .str (String.singleton c))
  | .dict kvs => some ((kvs.map Prod.fst).eraseDups.map .str)
  | _ => none

def sellOrder (row : PyVal) : Except PyErr SellOrder := do
  return { price := ← subscript row "price", ql := ← subscript row "ql",
           count := ← subscript row "count", seller := ← subscript row "seller" }

def buyOrder (row : PyVal) : Except PyErr BuyOrder := do
  return { price := ← subscript row "price", minQl := ← subscript row "min_ql",
           maxQl := ← subscript row "max_ql", count := ← subscript row "count",
           buyer := ← subscript row "buyer" }

def ordersFromJson (data : PyVal) : Except PyErr Orders := do
  let sells ← orTypeError (elements (← subscript data "sell_orders"))
  let sellOrders ← sells.mapM sellOrder
  let buys ← orTypeError (elements (← subscript data "buy_orders"))
  let buyOrders ← buys.mapM buyOrder
  return { sellOrders := sellOrders, buyOrders := buyOrders }

/-- `except (httpx.HTTPError, ValueError)`. -/
def fetchFailed : PyErr → Bool
  | .http | .value _ => true
  | _ => false

/-- `except (KeyError, TypeError, ValueError)`. -/
def malformed : PyErr → Bool
  | .key | .type | .value _ => true
  | _ => false

def getOrders (response : Except PyErr Response) : Except PyErr (Option Orders) :=
  let fetched : Except PyErr PyVal := do
    let r ← response
    raiseForStatus r
    r.json
  match fetched with
  | .error e => if fetchFailed e then .ok none else .error e
  | .ok data =>
    match ordersFromJson data with
    | .ok orders => .ok (some orders)
    | .error e => if malformed e then .ok none else .error e

/-! What the document says -/

inductive Kind where
  | int | str
deriving DecidableEq, Repr

/-- `true` is no integer of a document, and `1.0` neither. -/
def Kind.Holds : Kind → PyVal → Prop
  | .int, .num (.int _) => True
  | .str, .str _ => True
  | _, _ => False

def sellFields : List (String × Kind) :=
  [("price", .int), ("ql", .int), ("count", .int), ("seller", .str)]

def buyFields : List (String × Kind) :=
  [("price", .int), ("min_ql", .int), ("max_ql", .int), ("count", .int), ("buyer", .str)]

def Complete (fields : List (String × Kind)) (row : PyVal) : Prop :=
  ∀ f ∈ fields, ∃ v, entry f.1 row = some v

/-- What the row has of the fields is of their kinds. -/
def Typed (fields : List (String × Kind)) (row : PyVal) : Prop :=
  ∀ f ∈ fields, ∀ v, entry f.1 row = some v → f.2.Holds v

def rows (data : PyVal) (side : String) : Option (List PyVal) :=
  (entry side data).bind elements

/-- Where a document has both lists, and every row all its fields, the fields hold what
they should. -/
def FieldsTyped (data : PyVal) : Prop :=
  ∀ sells buys, rows data "sell_orders" = some sells → rows data "buy_orders" = some buys →
    (∀ row ∈ sells, Complete sellFields row) → (∀ row ∈ buys, Complete buyFields row) →
      (∀ row ∈ sells, Typed sellFields row) ∧ ∀ row ∈ buys, Typed buyFields row

/-! Rows -/

theorem subscript_eq_ok {v x : PyVal} {name : String} :
    subscript v name = .ok x ↔ entry name v = some x := by
  unfold subscript
  cases v with
  | dict kvs => cases h : entry name (.dict kvs) <;> simp
  | _ => simp [entry]

theorem subscript_error {v : PyVal} {name : String} {e : PyErr} (h : subscript v name = .error e) :
    malformed e := by
  unfold subscript at h
  cases v with
  | dict kvs =>
    cases hentry : entry name (.dict kvs) with
    | some x => simp [hentry] at h
    | none =>
      simp only [hentry] at h
      cases h
      rfl
  | _ =>
    cases h
    rfl

theorem sellOrder_eq_ok {row : PyVal} {o : SellOrder} (h : sellOrder row = .ok o) :
    entry "price" row = some o.price ∧ entry "ql" row = some o.ql ∧
      entry "count" row = some o.count ∧ entry "seller" row = some o.seller := by
  obtain ⟨price, hprice, h⟩ := except_bind_eq_ok.mp h
  obtain ⟨ql, hql, h⟩ := except_bind_eq_ok.mp h
  obtain ⟨count, hcount, h⟩ := except_bind_eq_ok.mp h
  obtain ⟨seller, hseller, h⟩ := except_bind_eq_ok.mp h
  cases h
  exact ⟨subscript_eq_ok.mp hprice, subscript_eq_ok.mp hql, subscript_eq_ok.mp hcount,
    subscript_eq_ok.mp hseller⟩

theorem buyOrder_eq_ok {row : PyVal} {o : BuyOrder} (h : buyOrder row = .ok o) :
    entry "price" row = some o.price ∧ entry "min_ql" row = some o.minQl ∧
      entry "max_ql" row = some o.maxQl ∧ entry "count" row = some o.count ∧
        entry "buyer" row = some o.buyer := by
  obtain ⟨price, hprice, h⟩ := except_bind_eq_ok.mp h
  obtain ⟨minQl, hmin, h⟩ := except_bind_eq_ok.mp h
  obtain ⟨maxQl, hmax, h⟩ := except_bind_eq_ok.mp h
  obtain ⟨count, hcount, h⟩ := except_bind_eq_ok.mp h
  obtain ⟨buyer, hbuyer, h⟩ := except_bind_eq_ok.mp h
  cases h
  exact ⟨subscript_eq_ok.mp hprice, subscript_eq_ok.mp hmin, subscript_eq_ok.mp hmax,
    subscript_eq_ok.mp hcount, subscript_eq_ok.mp hbuyer⟩

/-- A row becomes a sell order exactly when it has every field, whatever the fields hold. -/
theorem sellOrder_returns (row : PyVal) :
    (∃ o, sellOrder row = .ok o) ↔ Complete sellFields row := by
  constructor
  · intro ⟨o, ho⟩
    obtain ⟨hprice, hql, hcount, hseller⟩ := sellOrder_eq_ok ho
    simp [Complete, sellFields, hprice, hql, hcount, hseller]
  · intro h
    simp only [Complete, sellFields, List.forall_mem_cons] at h
    obtain ⟨⟨price, hprice⟩, ⟨ql, hql⟩, ⟨count, hcount⟩, ⟨seller, hseller⟩, _⟩ := h
    exact ⟨⟨price, ql, count, seller⟩, by
      simp [sellOrder, subscript_eq_ok.mpr hprice, subscript_eq_ok.mpr hql,
        subscript_eq_ok.mpr hcount, subscript_eq_ok.mpr hseller, bind, Except.bind, pure,
        Except.pure]⟩

theorem buyOrder_returns (row : PyVal) :
    (∃ o, buyOrder row = .ok o) ↔ Complete buyFields row := by
  constructor
  · intro ⟨o, ho⟩
    obtain ⟨hprice, hmin, hmax, hcount, hbuyer⟩ := buyOrder_eq_ok ho
    simp [Complete, buyFields, hprice, hmin, hmax, hcount, hbuyer]
  · intro h
    simp only [Complete, buyFields, List.forall_mem_cons] at h
    obtain ⟨⟨price, hprice⟩, ⟨minQl, hmin⟩, ⟨maxQl, hmax⟩, ⟨count, hcount⟩, ⟨buyer, hbuyer⟩, _⟩ := h
    exact ⟨⟨price, minQl, maxQl, count, buyer⟩, by
      simp [buyOrder, subscript_eq_ok.mpr hprice, subscript_eq_ok.mpr hmin,
        subscript_eq_ok.mpr hmax, subscript_eq_ok.mpr hcount, subscript_eq_ok.mpr hbuyer, bind,
        Except.bind, pure, Except.pure]⟩

theorem holds_int {v : PyVal} : Kind.int.Holds v ↔ ∃ n, v = .num (.int n) := by
  unfold Kind.Holds
  split <;> simp_all

theorem holds_str {v : PyVal} : Kind.str.Holds v ↔ ∃ s, v = .str s := by
  unfold Kind.Holds
  split <;> simp_all

/-- The order is well typed exactly when the fields of its row are of their kinds. -/
theorem sellOrder_typed {row : PyVal} {o : SellOrder} (h : sellOrder row = .ok o) :
    o.order?.isSome ↔ Typed sellFields row := by
  obtain ⟨hprice, hql, hcount, hseller⟩ := sellOrder_eq_ok h
  have hfields : Typed sellFields row ↔ Kind.int.Holds o.price ∧ Kind.int.Holds o.ql ∧
      Kind.int.Holds o.count ∧ Kind.str.Holds o.seller := by
    simp [Typed, sellFields, hprice, hql, hcount, hseller]
  rw [hfields]
  simp only [holds_int, holds_str]
  constructor
  · intro hsome
    obtain ⟨x, hx⟩ := Option.isSome_iff_exists.mp hsome
    obtain ⟨price, ql, count, seller, _, rfl⟩ := SellOrder.order?_eq_some hx
    exact ⟨⟨price, rfl⟩, ⟨ql, rfl⟩, ⟨count, rfl⟩, seller, rfl⟩
  · intro ⟨⟨price, hp⟩, ⟨ql, hq⟩, ⟨count, hc⟩, seller, hs⟩
    simp [SellOrder.order?, hp, hq, hc, hs]

theorem buyOrder_typed {row : PyVal} {o : BuyOrder} (h : buyOrder row = .ok o) :
    o.order?.isSome ↔ Typed buyFields row := by
  obtain ⟨hprice, hmin, hmax, hcount, hbuyer⟩ := buyOrder_eq_ok h
  have hfields : Typed buyFields row ↔ Kind.int.Holds o.price ∧ Kind.int.Holds o.minQl ∧
      Kind.int.Holds o.maxQl ∧ Kind.int.Holds o.count ∧ Kind.str.Holds o.buyer := by
    simp [Typed, buyFields, hprice, hmin, hmax, hcount, hbuyer]
  rw [hfields]
  simp only [holds_int, holds_str]
  constructor
  · intro hsome
    obtain ⟨x, hx⟩ := Option.isSome_iff_exists.mp hsome
    obtain ⟨price, minQl, maxQl, count, buyer, _, rfl⟩ := BuyOrder.order?_eq_some hx
    exact ⟨⟨price, rfl⟩, ⟨minQl, rfl⟩, ⟨maxQl, rfl⟩, ⟨count, rfl⟩, buyer, rfl⟩
  · intro ⟨⟨price, hp⟩, ⟨minQl, hl⟩, ⟨maxQl, hu⟩, ⟨count, hc⟩, buyer, hb⟩
    simp [BuyOrder.order?, hp, hl, hu, hc, hb]

/-! Documents -/

section Malformed
variable {α β : Type}

/-- Whatever goes wrong is caught. -/
def Caught (x : Except PyErr α) : Prop := ∀ e, x = .error e → malformed e

theorem Caught.bind {x : Except PyErr α} {f : α → Except PyErr β} (hx : Caught x)
    (hf : ∀ a, Caught (f a)) : Caught (x >>= f) := by
  intro e h
  cases x with
  | error e' =>
    cases h
    exact hx e rfl
  | ok a => exact hf a e h

theorem caught_pure (a : α) : Caught (pure a : Except PyErr α) := by
  intro e h
  cases h

theorem caught_subscript (v : PyVal) (name : String) : Caught (subscript v name) :=
  fun _ h => subscript_error h

theorem caught_elements (v : PyVal) : Caught (orTypeError (elements v)) := by
  intro e h
  cases helements : elements v with
  | some l =>
    rw [helements] at h
    cases h
  | none =>
    rw [helements] at h
    cases h
    rfl

theorem caught_mapM {f : α → Except PyErr β} (hf : ∀ a, Caught (f a)) (l : List α) :
    Caught (l.mapM f) := by
  induction l with
  | nil => exact caught_pure []
  | cons a rest ih =>
    rw [List.mapM_cons]
    exact (hf a).bind fun b => ih.bind fun bs => caught_pure (b :: bs)

theorem caught_sellOrder (row : PyVal) : Caught (sellOrder row) :=
  (caught_subscript row _).bind fun _ => (caught_subscript row _).bind fun _ =>
    (caught_subscript row _).bind fun _ => (caught_subscript row _).bind fun _ => caught_pure _

theorem caught_buyOrder (row : PyVal) : Caught (buyOrder row) :=
  (caught_subscript row _).bind fun _ => (caught_subscript row _).bind fun _ =>
    (caught_subscript row _).bind fun _ => (caught_subscript row _).bind fun _ =>
      (caught_subscript row _).bind fun _ => caught_pure _

/-- Whatever a document that parsed lacks ends in `None`. -/
theorem caught_ordersFromJson (data : PyVal) : Caught (ordersFromJson data) :=
  (caught_subscript data _).bind fun _ => (caught_elements _).bind fun _ =>
    (caught_mapM caught_sellOrder _).bind fun _ => (caught_subscript data _).bind fun _ =>
      (caught_elements _).bind fun _ => (caught_mapM caught_buyOrder _).bind fun _ => caught_pure _

end Malformed

theorem rows_eq_some {data : PyVal} {side : String} {l : List PyVal} :
    rows data side = some l ↔
      ∃ v, subscript data side = .ok v ∧ orTypeError (elements v) = .ok l := by
  have helements : ∀ v, orTypeError (elements v) = .ok l ↔ elements v = some l := by
    intro v
    cases elements v <;> simp [orTypeError]
  simp only [rows, Option.bind_eq_some_iff, subscript_eq_ok, helements]

/-- A book comes from the two lists of the document, row by row. -/
theorem ordersFromJson_eq_ok {data : PyVal} {orders : Orders}
    (h : ordersFromJson data = .ok orders) :
    ∃ sells buys, rows data "sell_orders" = some sells ∧ rows data "buy_orders" = some buys ∧
      sells.mapM sellOrder = .ok orders.sellOrders ∧
        buys.mapM buyOrder = .ok orders.buyOrders := by
  obtain ⟨v, hv, h⟩ := except_bind_eq_ok.mp h
  obtain ⟨sells, hsells, h⟩ := except_bind_eq_ok.mp h
  obtain ⟨sellOrders, hsellOrders, h⟩ := except_bind_eq_ok.mp h
  obtain ⟨v', hv', h⟩ := except_bind_eq_ok.mp h
  obtain ⟨buys, hbuys, h⟩ := except_bind_eq_ok.mp h
  obtain ⟨buyOrders, hbuyOrders, h⟩ := except_bind_eq_ok.mp h
  cases h
  exact ⟨sells, buys, rows_eq_some.mpr ⟨v, hv, hsells⟩, rows_eq_some.mpr ⟨v', hv', hbuys⟩,
    hsellOrders, hbuyOrders⟩

/-- A document whose rows have all their fields becomes a book, whatever the values in them are. -/
theorem ordersFromJson_ok {data : PyVal} {sells buys : List PyVal}
    (hsells : rows data "sell_orders" = some sells) (hbuys : rows data "buy_orders" = some buys)
    (hsell : ∀ row ∈ sells, Complete sellFields row)
    (hbuy : ∀ row ∈ buys, Complete buyFields row) :
    ∃ orders, ordersFromJson data = .ok orders := by
  obtain ⟨v, hv, hsells⟩ := rows_eq_some.mp hsells
  obtain ⟨v', hv', hbuys⟩ := rows_eq_some.mp hbuys
  obtain ⟨sellOrders, hsellOrders⟩ :=
    mapM_ok fun row hrow => (sellOrder_returns row).mpr (hsell row hrow)
  obtain ⟨buyOrders, hbuyOrders⟩ :=
    mapM_ok fun row hrow => (buyOrder_returns row).mpr (hbuy row hrow)
  refine ⟨⟨sellOrders, buyOrders⟩, ?_⟩
  unfold ordersFromJson
  exact except_bind_eq_ok.mpr ⟨v, hv, except_bind_eq_ok.mpr ⟨sells, hsells,
    except_bind_eq_ok.mpr ⟨sellOrders, hsellOrders, except_bind_eq_ok.mpr ⟨v', hv',
      except_bind_eq_ok.mpr ⟨buys, hbuys, except_bind_eq_ok.mpr ⟨buyOrders, hbuyOrders, rfl⟩⟩⟩⟩⟩⟩

theorem mapM_forall {α β : Type} {f : α → Except PyErr β} {P : β → Prop} {Q : α → Prop}
    {as : List α} {bs : List β} (h : as.mapM f = .ok bs)
    (hf : ∀ a b, f a = .ok b → (P b ↔ Q a)) : (∀ b ∈ bs, P b) ↔ ∀ a ∈ as, Q a := by
  obtain ⟨hback, hforth⟩ := mapM_eq_ok h
  constructor
  · intro hall a ha
    obtain ⟨b, hb, hab⟩ := hforth a ha
    exact (hf a b hab).mp (hall b hb)
  · intro hall b hb
    obtain ⟨a, ha, hab⟩ := hback b hb
    exact (hf a b hab).mpr (hall a ha)

/-- The books a document is accepted as are well typed exactly when its fields are. -/
theorem accepted_typed_iff (data : PyVal) :
    (∀ orders, ordersFromJson data = .ok orders → orders.WellTyped) ↔ FieldsTyped data := by
  constructor
  · intro h sells buys hsells hbuys hsell hbuy
    obtain ⟨orders, horders⟩ := ordersFromJson_ok hsells hbuys hsell hbuy
    obtain ⟨sells', buys', hsells', hbuys', hsellOrders, hbuyOrders⟩ := ordersFromJson_eq_ok horders
    rw [hsells] at hsells'
    rw [hbuys] at hbuys'
    cases hsells'
    cases hbuys'
    have htyped := h orders horders
    exact ⟨(mapM_forall hsellOrders fun _ _ ho => sellOrder_typed ho).mp htyped.1,
      (mapM_forall hbuyOrders fun _ _ ho => buyOrder_typed ho).mp htyped.2⟩
  · intro h orders horders
    obtain ⟨sells, buys, hsells, hbuys, hsellOrders, hbuyOrders⟩ := ordersFromJson_eq_ok horders
    have hsell : ∀ row ∈ sells, Complete sellFields row := by
      intro row hrow
      obtain ⟨o, _, ho⟩ := (mapM_eq_ok hsellOrders).2 row hrow
      exact (sellOrder_returns row).mp ⟨o, ho⟩
    have hbuy : ∀ row ∈ buys, Complete buyFields row := by
      intro row hrow
      obtain ⟨o, _, ho⟩ := (mapM_eq_ok hbuyOrders).2 row hrow
      exact (buyOrder_returns row).mp ⟨o, ho⟩
    obtain ⟨hsellTyped, hbuyTyped⟩ := h sells buys hsells hbuys hsell hbuy
    exact ⟨(mapM_forall hsellOrders fun _ _ ho => sellOrder_typed ho).mpr hsellTyped,
      (mapM_forall hbuyOrders fun _ _ ho => buyOrder_typed ho).mpr hbuyTyped⟩

/-! What a well-typed book is good for -/

section Summaries
variable {py : Runtime}

/-- Nothing _snapshot computes raises TypeError; an average may still be too large for a float. -/
def Summarizes (py : Runtime) (book : Orders) : Prop :=
  ∀ ql e, summarize py book ql = .error e → e = .overflow

theorem summarizes_of_wellTyped {book : Orders} (h : book.WellTyped) : Summarizes py book := by
  intro ql e he
  obtain ⟨_, _, sells, buys, _, _, _, _, hsells, hbuys, heq⟩ :=
    @summarize_int (fun _ => True) py book h trivial (fun _ _ => trivial) ql
  rw [heq] at he
  rcases bind_eq_error he with hsell | ⟨_, he⟩
  · exact average_int hsells hsell
  · rcases bind_eq_error he with hbuy | ⟨_, he⟩
    · exact average_int hbuys hbuy
    · cases he

end Summaries

/-- A response with status 200 is turned into `None` or a well-typed book exactly when
reading its body raises nothing that is not caught and its fields hold what they should. -/
theorem getOrders_typed_iff (py : Runtime) (json : Except PyErr PyVal) :
    (∃ r, getOrders (.ok ⟨200, json⟩) = .ok r ∧
      ∀ book, r = some book → book.WellTyped ∧ Summarizes py book) ↔
      (∀ e, json = .error e → fetchFailed e) ∧ ∀ data, json = .ok data → FieldsTyped data := by
  have hread : getOrders (.ok ⟨200, json⟩) =
      match json with
      | .error e => if fetchFailed e then .ok none else .error e
      | .ok data =>
        match ordersFromJson data with
        | .ok orders => .ok (some orders)
        | .error e => if malformed e then .ok none else .error e := rfl
  rw [hread]
  cases json with
  | error e =>
    cases hfailed : fetchFailed e with
    | true => simp [hfailed]
    | false => simp [hfailed]
  | ok data =>
    have htyped := accepted_typed_iff data
    cases horders : ordersFromJson data with
    | error e =>
      have hcaught := caught_ordersFromJson data e horders
      simp [hcaught, ← htyped, horders]
    | ok orders =>
      have hsum : orders.WellTyped → Summarizes py orders := summarizes_of_wellTyped
      simp [← htyped, horders]
      exact hsum

/-- A row whose price is null. -/
theorem null_price_accepted :
    ¬ ∀ data, ∃ r, getOrders (.ok ⟨200, .ok data⟩) = .ok r ∧
      ∀ book, r = some book → book.WellTyped ∧ Summarizes .ascii book := by
  intro h
  obtain ⟨r, hr, hbook⟩ := h (.dict [("sell_orders", .list [.dict [("price", .none),
    ("ql", .num (.int 200)), ("count", .num (.int 3)), ("seller", .str "Alice")]]),
    ("buy_orders", .list [])])
  cases hr
  exact absurd (hbook _ rfl).1 (by decide)

end AoMarket.GmiClient
