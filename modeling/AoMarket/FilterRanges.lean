import AoMarket.RangeSpecs
import AoMarket.FilterUpdate

/-!
The bounds of the stored filters. A new row has none, every update writes a range that
was read from a spec, and a spec stands for bounds in order only, so no row ever has
its minimum above its maximum.
-/

namespace AoMarket.FilterRanges

open Coroutine Relational Models Database Environment MarketRepo MarketService Parsing RangeSpecs
open Writes ServiceWrites HttpRoutes
open FilterUpdate (Bounds Range boundsOf part updateFilterRoute_eq)

/-- The minimum is not above the maximum where both are there. -/
def Range.InOrder (range : Range) : Prop := ∀ lo ∈ range.1, ∀ hi ∈ range.2, lo ≤ hi

structure Bounds.InOrder (b : Bounds) : Prop where
  price : Range.InOrder b.price
  ql : Range.InOrder b.ql

def unbounded : Bounds := ⟨(none, none), (none, none)⟩

theorem unbounded_inOrder : Bounds.InOrder unbounded :=
  ⟨by simp [Range.InOrder, unbounded], by simp [Range.InOrder, unbounded]⟩

def FiltersInOrder (db : Db) : Prop := ∀ s ∈ db.subscriptions, Bounds.InOrder (boundsOf s)

def KeepsOrder (w w' : World) : Prop := FiltersInOrder w.db → FiltersInOrder w'.db

section Steps
variable {env : Env} {player : String} {aoid : ℤ}

/-- Writes to other tables leave the filters alone. -/
theorem keepsOrder_of_keeps {α : Type} {p : M α}
    (h : Keeps (fun op => ¬ TouchesSubscriptions op) p) : p.Frames KeepsOrder := by
  apply Coro.Frames.mono h
  intro w w' hstep horder
  obtain ⟨_, note, _, ⟨hsame, _⟩ | ⟨op, hop, heffect⟩⟩ := hstep
  · rwa [hsame]
  · unfold FiltersInOrder
    rwa [heffect.subscriptions_eq hop]

/-- A new row has no bounds. -/
theorem keepsOrder_addSubscription : (addSubscription env player aoid).Frames KeepsOrder := by
  apply frames_statement (fun _ => id)
  intro w a db note hf horder
  obtain ⟨db', hinsert, hf⟩ := except_bind_eq_ok.mp hf
  cases hf
  intro s hs
  rw [Db.insertSubscription_eq_some (orRefused_eq_ok hinsert)] at hs
  rcases List.mem_append.mp hs with hs | hs
  · exact horder s hs
  · rw [List.mem_singleton.mp hs]
    exact unbounded_inOrder

/-- An update of a filter keeps the rows in order if the new bounds are. -/
theorem keepsOrder_updateFilter {check : Except PyErr Unit}
    {f : MarketSubscription → MarketSubscription} {hf : ∀ r, (f r).key = r.key}
    (h : ∀ s, Bounds.InOrder (boundsOf s) → Bounds.InOrder (boundsOf (f s))) :
    (MarketRepo.updateFilter env player aoid check f hf).Frames KeepsOrder := by
  apply frames_statement (fun _ => id)
  intro w a db note hstored horder
  obtain ⟨_, _, hstored⟩ := except_bind_eq_ok.mp hstored
  obtain ⟨_, _, hstored⟩ := except_bind_eq_ok.mp hstored
  obtain ⟨_, _, hstored⟩ := except_bind_eq_ok.mp hstored
  cases hstored
  intro s hs
  obtain ⟨r, hr, rfl⟩ := List.mem_map.mp hs
  split
  · exact h r (horder r hr)
  · exact horder r hr

/-- What is written was read from a spec, so it is in order. -/
theorem keepsOrder_setFilter {spec : String} {parser : String → Except PyErr (Option ℤ)}
    {update : Option ℤ → Option ℤ → M Unit}
    (h : ∀ lo hi, Range.InOrder (lo, hi) → (update lo hi).Frames KeepsOrder) :
    (setFilter env player aoid spec parser update).Frames KeepsOrder := by
  refine Coro.Frames.bind (keepsOrder_of_keeps (keeps_requireSubscription player aoid)) fun _ => ?_
  cases hread : parseRange spec parser with
  | error e => exact Coro.Frames.throw e
  | ok range =>
    cases range with
    | none => exact Coro.Frames.throw _
    | some bounds =>
      have hdenotes : Denotes parser spec bounds.1 bounds.2 := parseRange_eq_some.mp hread
      exact h bounds.1 bounds.2 hdenotes.ordered

theorem keepsOrder_setPriceFilter (spec : String) :
    (setPriceFilter env player aoid spec).Frames KeepsOrder := by
  apply keepsOrder_setFilter
  intro lo hi hrange
  exact keepsOrder_updateFilter fun s hs => ⟨hrange, hs.ql⟩

theorem keepsOrder_setQlFilter (spec : String) :
    (setQlFilter env player aoid spec).Frames KeepsOrder := by
  apply keepsOrder_setFilter
  intro lo hi hrange
  exact keepsOrder_updateFilter fun s hs => ⟨hs.price, hrange⟩

theorem keepsOrder_clearFilter : (MarketService.clearFilter env player aoid).Frames KeepsOrder := by
  refine Coro.Frames.bind (keepsOrder_of_keeps (keeps_requireSubscription player aoid)) fun _ => ?_
  exact keepsOrder_updateFilter fun s _ => unbounded_inOrder

theorem keepsOrder_logAction (action : String) (item : Option ℤ) :
    (MarketService.logAction env player action item).Frames KeepsOrder :=
  keepsOrder_of_keeps (keeps_logAction (by simp [TouchesSubscriptions]) player action item)

theorem keepsOrder_subscribe : (MarketService.subscribe env player aoid).Frames KeepsOrder := by
  refine Coro.Frames.bind (keepsOrder_of_keeps (keeps_getItem aoid)) fun item => ?_
  cases item with
  | none => exact Coro.Frames.throw _
  | some item =>
    refine Coro.Frames.bind (keepsOrder_of_keeps (keeps_isRegistered player)) fun registered => ?_
    cases registered with
    | false =>
      exact Coro.Frames.bind (keepsOrder_logAction _ _) fun _ => Coro.Frames.throw _
    | true =>
      refine Coro.Frames.bind (keepsOrder_of_keeps (keeps_getSubscription player aoid)) fun sub => ?_
      cases sub with
      | some sub => exact Coro.Frames.throw _
      | none =>
        refine Coro.Frames.bind (keepsOrder_of_keeps (keeps_getInt _)) fun limit => ?_
        refine Coro.Frames.bind (keepsOrder_of_keeps (keeps_countSubscriptions player)) fun count => ?_
        by_cases hfull : limit ≤ count
        · rw [if_pos hfull]
          exact Coro.Frames.throw _
        · rw [if_neg hfull]
          have hwatch : (watchItem env aoid item.name item.ql item.icon false).Frames KeepsOrder :=
            keepsOrder_of_keeps (keeps_watchItem (by simp [TouchesSubscriptions]) _ _ _ _)
          refine Coro.Frames.bind hwatch fun _ => ?_
          refine Coro.Frames.bind keepsOrder_addSubscription fun _ => ?_
          exact Coro.Frames.bind (keepsOrder_logAction _ _) fun _ => Coro.Frames.pure _

end Steps

/-! The routes -/

/-- The requests that make a subscription or read or write its filter. -/
inductive FilterRoute : Request → Prop
  | subscribe (player : String) (aoid : ℤ) : FilterRoute (.subscribe player aoid)
  | getFilter (player : String) (aoid : ℤ) : FilterRoute (.getFilter player aoid)
  | updateFilter (player : String) (aoid : ℤ) (priceSpec qlSpec : Option String) :
      FilterRoute (.updateFilter player aoid priceSpec qlSpec)
  | clearFilter (player : String) (aoid : ℤ) : FilterRoute (.clearFilter player aoid)

section Routes
variable {app : App}

theorem keepsOrder_part {set : String → M Unit} (h : ∀ spec, (set spec).Frames KeepsOrder)
    (spec : Option String) : (part set spec).Frames KeepsOrder := by
  cases spec with
  | none => exact Coro.Frames.pure _
  | some s => exact h s

/-- No request of these routes puts a minimum above a maximum. -/
theorem keepsOrder_handler {request : Request} (h : FilterRoute request) :
    (handler app request).Frames KeepsOrder := by
  have hread : ∀ player aoid, (MarketService.getFilter app.env player aoid).Frames KeepsOrder :=
    fun player aoid => keepsOrder_of_keeps (keeps_requireSubscription player aoid)
  cases h with
  | subscribe player aoid =>
    exact Coro.Frames.bind keepsOrder_subscribe fun _ => Coro.Frames.pure _
  | getFilter player aoid =>
    exact Coro.Frames.bind (hread player aoid) fun _ => Coro.Frames.pure _
  | updateFilter player aoid priceSpec qlSpec =>
    show (HttpRoutes.updateFilter app.env player aoid priceSpec qlSpec).Frames KeepsOrder
    rw [updateFilterRoute_eq]
    refine Coro.Frames.bind (keepsOrder_part keepsOrder_setPriceFilter priceSpec) fun _ => ?_
    refine Coro.Frames.bind (keepsOrder_part keepsOrder_setQlFilter qlSpec) fun _ => ?_
    exact Coro.Frames.bind (hread player aoid) fun _ => Coro.Frames.pure _
  | clearFilter player aoid =>
    refine Coro.Frames.bind keepsOrder_clearFilter fun _ => ?_
    exact Coro.Frames.bind (hread player aoid) fun _ => Coro.Frames.pure _

theorem keepsOrder_serve {request : Request} (h : FilterRoute request) (xApiKey : Option String) :
    (serve app xApiKey request).Frames KeepsOrder := by
  apply Coro.Frames.handle
  · have hguard : (checkGuard app.env xApiKey (guardOf request)).Frames KeepsOrder :=
      keepsOrder_of_keeps (HttpAccess.keeps_checkGuard (by simp [TouchesSubscriptions]) _ _)
    refine Coro.Frames.bind hguard fun stopped => ?_
    cases stopped with
    | some response => exact Coro.Frames.pure _
    | none => exact keepsOrder_handler h
  · exact fun e => keepsOrder_of_keeps (HttpAccess.keeps_marketErrorHandler e)

end Routes

/-! Runs -/

/-- The states after any number of subscriptions and filter changes, from chat or through the
routes, where no row had a bound at first. In between anything may happen to the rows that gives none of them new bounds. -/
inductive FilterRun (app : App) : World → Prop
  | unfiltered {w : World} (h : ∀ s ∈ w.db.subscriptions, boundsOf s = unbounded) : FilterRun app w
  | subscribe {w : World} (h : FilterRun app w) (player : String) (aoid : ℤ) :
      FilterRun app ((MarketService.subscribe app.env player aoid).run w).2
  | setPriceFilter {w : World} (h : FilterRun app w) (player : String) (aoid : ℤ) (spec : String) :
      FilterRun app ((setPriceFilter app.env player aoid spec).run w).2
  | setQlFilter {w : World} (h : FilterRun app w) (player : String) (aoid : ℤ) (spec : String) :
      FilterRun app ((setQlFilter app.env player aoid spec).run w).2
  | clearFilter {w : World} (h : FilterRun app w) (player : String) (aoid : ℤ) :
      FilterRun app ((MarketService.clearFilter app.env player aoid).run w).2
  | route {w : World} (h : FilterRun app w) (xApiKey : Option String) {request : Request}
      (hroute : FilterRoute request) : FilterRun app ((serve app xApiKey request).run w).2
  | elsewhere {w w' : World} (h : FilterRun app w)
      (hkept : ∀ s ∈ w'.db.subscriptions, ∃ r ∈ w.db.subscriptions, boundsOf s = boundsOf r) :
      FilterRun app w'

/-- The filters are in order in every state of a run. -/
theorem FilterRun.inOrder {app : App} {w : World} (h : FilterRun app w) : FiltersInOrder w.db := by
  have hrun : ∀ {α : Type} {p : M α} {w : World}, p.Frames KeepsOrder → FiltersInOrder w.db →
      FiltersInOrder (p.run w).2.db := by
    intro α p w hp
    exact Coro.Frames.run (R := KeepsOrder) (fun _ => id) (fun hab hbc hold => hbc (hab hold)) hp w
  induction h with
  | unfiltered h =>
    intro s hs
    rw [h s hs]
    exact unbounded_inOrder
  | subscribe h player aoid ih => exact hrun keepsOrder_subscribe ih
  | setPriceFilter h player aoid spec ih => exact hrun (keepsOrder_setPriceFilter spec) ih
  | setQlFilter h player aoid spec ih => exact hrun (keepsOrder_setQlFilter spec) ih
  | clearFilter h player aoid ih => exact hrun keepsOrder_clearFilter ih
  | route h xApiKey hroute ih => exact hrun (keepsOrder_serve hroute xApiKey) ih
  | elsewhere h hkept ih =>
    intro s hs
    obtain ⟨r, hr, hsame⟩ := hkept s hs
    rw [hsame]
    exact ih r hr

/-- A spec is read as the range it stands for and rejected if it stands for none, decimal
numbers in order around a dash are read as they are, and so no stored filter has its
minimum above its maximum. -/
theorem ranges_read_in_order :
    (∀ (spec : String) (P : String → Option ℤ),
      (∀ lo hi, parseRange spec (fun s => .ok (P s)) = .ok (some (lo, hi)) ↔
        Denotes (fun s => .ok (P s)) spec lo hi) ∧
      ((¬ ∃ lo hi, Denotes (fun s => .ok (P s)) spec lo hi) →
        parseRange spec (fun s => .ok (P s)) = .ok none)) ∧
    (∀ (py : PyText.Runtime) (lo hi : ℕ), lo ≤ hi → (toString lo).length < 4300 →
      (toString hi).length < 4300 → parseRange (toString lo ++ "-" ++ toString hi) (parseQl py) =
        .ok (some (some (lo : ℤ), some (hi : ℤ)))) ∧
    ∀ (app : App) (w : World), FilterRun app w → ∀ s ∈ w.db.subscriptions,
      (∀ lo ∈ s.minPrice, ∀ hi ∈ s.maxPrice, lo ≤ hi) ∧ ∀ lo ∈ s.minQl, ∀ hi ∈ s.maxQl, lo ≤ hi := by
  refine ⟨fun spec P => ⟨fun lo hi => parseRange_eq_some, parseRange_eq_none.mpr⟩, ?_, ?_⟩
  · intro py lo hi h hlo hhi
    exact parseRange_decimals h (le_of_lt hlo) (le_of_lt hhi)
  · intro app w h s hs
    have horder := h.inOrder s hs
    exact ⟨horder.price, horder.ql⟩

/-- Tara sets the price range of her filter and a request sets the other. -/
theorem taras_filter_in_order :
    ∀ s ∈ ((serve FilterUpdate.calmApp (some "aomk_tara")
        (.updateFilter "Tara" 1 none (some "1-300"))).run
      ((setPriceFilter FilterUpdate.calmApp.env "Tara" 1 "100-2.5k").run
        FilterUpdate.taraWatching).2).2.db.subscriptions,
      (∀ lo ∈ s.minPrice, ∀ hi ∈ s.maxPrice, lo ≤ hi) ∧ ∀ lo ∈ s.minQl, ∀ hi ∈ s.maxQl, lo ≤ hi := by
  have hstart : FilterRun FilterUpdate.calmApp FilterUpdate.taraWatching :=
    .unfiltered (by decide +kernel)
  exact ranges_read_in_order.2.2 _ _ (.route (.setPriceFilter hstart _ _ _) _ (.updateFilter _ _ _ _))

end AoMarket.FilterRanges
