import AoMarket.HttpAccess
import AoMarket.Outcomes

/-!
PUT of a filter. The route sets the price bounds and then the QL bounds, each with
a commit of its own, and reads the row back at the end. Each part is done as a
whole or not at all, and what is done stays done when a later part fails.
-/

namespace AoMarket.FilterUpdate

open Coroutine Outcomes Relational Models Database Environment MarketRepo MarketService
open Writes ServiceWrites HttpRoutes

abbrev Range := Option ℤ × Option ℤ

structure Bounds where
  price : Range
  ql : Range
deriving DecidableEq, Repr

def boundsOf (s : MarketSubscription) : Bounds :=
  { price := (s.minPrice, s.maxPrice), ql := (s.minQl, s.maxQl) }

def boundsAt (db : Db) (player : String) (aoid : ℤ) : Option Bounds :=
  (lookup MarketSubscription.key (player, aoid) db.subscriptions).map boundsOf

/-- The range that a part of the body asks for; one that is left out asks for the old one. -/
def Asks (parser : String → Except PyErr (Option ℤ)) : Option String → Range → Range → Prop
  | none, old, new => new = old
  | some spec, _, new => Parsing.parseRange spec parser = .ok (some new)

def AsksPrice : Option String → Range → Range → Prop := Asks (Parsing.parseCredits PyNumber.double)

def AsksQl (env : Env) : Option String → Range → Range → Prop := Asks (Parsing.parseQl env.py)

/-- The row could not be read back for the answer. -/
def Unread (env : Env) (player : String) (aoid : ℤ) (t : World) : Prop :=
  ∃ w e, (MarketService.getFilter env player aoid).run w = (.error e, t)

/-- What a request that failed in `t` can have left: nothing, the price part, or both parts
with only the answer missing. -/
inductive Left (env : Env) (player : String) (aoid : ℤ) (priceSpec qlSpec : Option String)
    (t : World) (old : Bounds) : Bounds → Prop
  | nothing : Left env player aoid priceSpec qlSpec t old old
  | price {new : Range} (h : AsksPrice priceSpec old.price new) :
      Left env player aoid priceSpec qlSpec t old { old with price := new }
  | both {new : Bounds} (hprice : AsksPrice priceSpec old.price new.price)
      (hql : AsksQl env qlSpec old.ql new.ql) (hunread : Unread env player aoid t) :
      Left env player aoid priceSpec qlSpec t old new

def Succeeded : Except PyErr Response → Prop
  | .ok (.ok _) => True
  | _ => False

instance : DecidablePred Succeeded
  | .ok (.ok _) => isTrue trivial
  | .ok (.error _ _) => isFalse fun h => h
  | .error _ => isFalse fun h => h

section Parts
variable {env : Env} {player : String} {aoid : ℤ} {w : World}

theorem yields_requireSubscription :
    Yields (requireSubscription env player aoid) w
      (fun sub t => t.db = w.db ∧ boundsAt w.db player aoid = some (boundsOf sub))
      fun _ t => t.db = w.db := by
  refine .of_run (fun sub t hrun => ?_) fun e t hrun =>
    Keeps.db_of_run (keeps_requireSubscription player aoid) hrun
  refine ⟨Keeps.db_of_run (keeps_requireSubscription player aoid) hrun, ?_⟩
  obtain ⟨found, w₁, hget, hrest⟩ := Coro.run_bind_eq_ok hrun
  obtain ⟨hlookup, rfl⟩ := run_query_eq_ok hget
  obtain ⟨_, _, hlookup⟩ := except_bind_eq_ok.mp hlookup
  obtain ⟨_, _, hlookup⟩ := except_bind_eq_ok.mp hlookup
  cases found with
  | none => cases hrest
  | some s =>
    cases hrest
    rw [boundsAt, Except.ok.inj hlookup]
    rfl

theorem boundsAt_updateRows {db db' : Db} {f : MarketSubscription → MarketSubscription}
    (hf : ∀ r, (f r).key = r.key)
    (h : db'.subscriptions = updateRows (fun s => s.key == (player, aoid)) f db.subscriptions) :
    boundsAt db' player aoid =
      (lookup MarketSubscription.key (player, aoid) db.subscriptions).map fun s => boundsOf (f s) := by
  unfold boundsAt
  rw [h, lookup_updateRows _ _ hf, Option.map_map]
  cases hrow : lookup MarketSubscription.key (player, aoid) db.subscriptions with
  | none => rfl
  | some row =>
    have hkey : row.key = (player, aoid) := ((lookup_eq_some db.sound.sub_key).mp hrow).2
    simp [hkey]

theorem yields_updateFilter {check : Except PyErr Unit}
    {f : MarketSubscription → MarketSubscription} {hf : ∀ r, (f r).key = r.key} :
    Yields (MarketRepo.updateFilter env player aoid check f hf) w
      (fun _ t => t.db.subscriptions =
        updateRows (fun s => s.key == (player, aoid)) f w.db.subscriptions)
      fun _ t => t.db = w.db := by
  refine yields_statement (fun _ => rfl) fun a db note hstored => ?_
  obtain ⟨_, _, hstored⟩ := except_bind_eq_ok.mp hstored
  obtain ⟨_, _, hstored⟩ := except_bind_eq_ok.mp hstored
  obtain ⟨_, _, hstored⟩ := except_bind_eq_ok.mp hstored
  cases hstored
  rfl

/-- A part sets its own bounds to the range it parsed, or raises and sets nothing. -/
theorem yields_setFilter {spec : String} {parser : String → Except PyErr (Option ℤ)}
    {check : Option ℤ → Option ℤ → Except PyErr Unit}
    {f : Option ℤ → Option ℤ → MarketSubscription → MarketSubscription}
    {hf : ∀ lo hi r, (f lo hi r).key = r.key} {put : Bounds → Range → Bounds}
    (hput : ∀ lo hi s, boundsOf (f lo hi s) = put (boundsOf s) (lo, hi)) :
    Yields (setFilter env player aoid spec parser fun lo hi =>
        MarketRepo.updateFilter env player aoid (check lo hi) (f lo hi) (hf lo hi)) w
      (fun _ t => ∃ old new, boundsAt w.db player aoid = some old ∧
        Parsing.parseRange spec parser = .ok (some new) ∧
          boundsAt t.db player aoid = some (put old new))
      fun _ t => boundsAt t.db player aoid = boundsAt w.db player aoid := by
  unfold setFilter
  generalize Parsing.parseRange spec parser = result
  have hrequire : Yields (requireSubscription env player aoid) w
      (fun sub t => t.db = w.db ∧ boundsAt w.db player aoid = some (boundsOf sub))
      fun _ t => boundsAt t.db player aoid = boundsAt w.db player aoid :=
    yields_requireSubscription.mono (fun _ _ h => h) fun _ _ h => by rw [h]
  refine hrequire.bind fun sub w₁ hfound => ?_
  obtain ⟨hdb, hold⟩ := hfound
  have hparse : Yields (Coro.ofExcept result : M _) w₁ (fun parsed t => t = w₁ ∧ result = .ok parsed)
      fun _ t => boundsAt t.db player aoid = boundsAt w.db player aoid :=
    .ofExcept (fun _ h => ⟨rfl, h⟩) fun _ _ => by rw [hdb]
  refine hparse.bind fun parsed t hparsed => ?_
  obtain ⟨rfl, hparsed⟩ := hparsed
  cases parsed with
  | none => exact .throw (by rw [hdb])
  | some range =>
    have hupdate : Yields (MarketRepo.updateFilter env player aoid (check range.1 range.2)
        (f range.1 range.2) (hf range.1 range.2)) t
        (fun _ t' => boundsAt t'.db player aoid = some (put (boundsOf sub) range))
        fun _ t' => boundsAt t'.db player aoid = boundsAt w.db player aoid := by
      refine yields_updateFilter.mono (fun _ t' h => ?_) fun _ t' h => by rw [h, hdb]
      rw [boundsAt_updateRows (hf range.1 range.2) h]
      rw [← hdb] at hold
      obtain ⟨row, hrow, hrowbounds⟩ := Option.map_eq_some_iff.mp hold
      rw [hrow, Option.map_some, hput, hrowbounds]
    exact hupdate.mono (fun _ _ h => ⟨boundsOf sub, range, hold, hparsed, h⟩) fun _ _ h => h

def part (set : String → M Unit) : Option String → M Unit
  | some s => set s
  | none => pure ()

/-- The route is its two parts and the answer. -/
theorem updateFilterRoute_eq (priceSpec qlSpec : Option String) :
    HttpRoutes.updateFilter env player aoid priceSpec qlSpec = (do
      part (setPriceFilter env player aoid) priceSpec
      part (setQlFilter env player aoid) qlSpec
      let sub ← MarketService.getFilter env player aoid
      return .ok (.subscription sub)) := by
  cases priceSpec with
  | none => cases qlSpec <;> rfl
  | some s => cases qlSpec <;> rfl

/-- What a part makes of the bounds: without a row there are none. -/
def Sets (parser : String → Except PyErr (Option ℤ)) (spec : Option String)
    (range : Bounds → Range) (put : Bounds → Range → Bounds) (old after : Option Bounds) : Prop :=
  match old with
  | none => after = none
  | some b => ∃ new, Asks parser spec (range b) new ∧ after = some (put b new)

/-- A part that the body leaves out changes nothing. -/
theorem yields_part {spec : Option String} {parser : String → Except PyErr (Option ℤ)}
    {set : String → M Unit} {range : Bounds → Range} {put : Bounds → Range → Bounds}
    (hself : ∀ b, put b (range b) = b)
    (hset : ∀ s w, Yields (set s) w
      (fun _ t => ∃ old new, boundsAt w.db player aoid = some old ∧
        Parsing.parseRange s parser = .ok (some new) ∧
          boundsAt t.db player aoid = some (put old new))
      fun _ t => boundsAt t.db player aoid = boundsAt w.db player aoid) :
    Yields (part set spec) w
      (fun _ t => Sets parser spec range put (boundsAt w.db player aoid) (boundsAt t.db player aoid))
      fun _ t => boundsAt t.db player aoid = boundsAt w.db player aoid := by
  cases spec with
  | none =>
    refine .pure ?_
    cases hold : boundsAt w.db player aoid with
    | none => rfl
    | some b => exact ⟨range b, rfl, by rw [hself]⟩
  | some s =>
    refine (hset s w).mono (fun _ t h => ?_) fun _ _ h => h
    obtain ⟨b, new, hb, hparse, hafter⟩ := h
    rw [hb]
    exact ⟨new, hparse, hafter⟩

theorem yields_pricePart (spec : Option String) :
    Yields (part (setPriceFilter env player aoid) spec) w
      (fun _ t => Sets (Parsing.parseCredits PyNumber.double) spec Bounds.price
        (fun b r => { b with price := r }) (boundsAt w.db player aoid) (boundsAt t.db player aoid))
      fun _ t => boundsAt t.db player aoid = boundsAt w.db player aoid :=
  yields_part (fun _ => rfl) fun _ _ => yields_setFilter fun _ _ _ => rfl

theorem yields_qlPart (spec : Option String) :
    Yields (part (setQlFilter env player aoid) spec) w
      (fun _ t => Sets (Parsing.parseQl env.py) spec Bounds.ql
        (fun b r => { b with ql := r }) (boundsAt w.db player aoid) (boundsAt t.db player aoid))
      fun _ t => boundsAt t.db player aoid = boundsAt w.db player aoid :=
  yields_part (fun _ => rfl) fun _ _ => yields_setFilter fun _ _ _ => rfl

/-- The handler does both parts and reads the row back. -/
theorem yields_updateFilterRoute (priceSpec qlSpec : Option String) :
    Yields (HttpRoutes.updateFilter env player aoid priceSpec qlSpec) w
      (fun r t => Succeeded (.ok r) ∧ ∃ old new, boundsAt w.db player aoid = some old ∧
        AsksPrice priceSpec old.price new.price ∧ AsksQl env qlSpec old.ql new.ql ∧
          boundsAt t.db player aoid = some new)
      fun _ t => boundsAt t.db player aoid = boundsAt w.db player aoid ∨
        ∃ old new, boundsAt w.db player aoid = some old ∧
          Left env player aoid priceSpec qlSpec t old new ∧
            boundsAt t.db player aoid = some new := by
  rw [updateFilterRoute_eq]
  refine Yields.bind ((yields_pricePart priceSpec).mono (fun _ _ h => h) fun _ _ h => Or.inl h) ?_
  intro _ w₁ hprice
  have hql : Yields (part (setQlFilter env player aoid) qlSpec) w₁
      (fun _ t => Sets (Parsing.parseQl env.py) qlSpec Bounds.ql
        (fun b r => { b with ql := r }) (boundsAt w₁.db player aoid) (boundsAt t.db player aoid))
      fun _ t => boundsAt t.db player aoid = boundsAt w.db player aoid ∨
        ∃ old new, boundsAt w.db player aoid = some old ∧
          Left env player aoid priceSpec qlSpec t old new ∧
            boundsAt t.db player aoid = some new := by
    refine (yields_qlPart qlSpec).mono (fun _ _ h => h) fun _ t h => ?_
    rw [h]
    cases hold : boundsAt w.db player aoid with
    | none =>
      rw [hold] at hprice
      exact Or.inl hprice
    | some old =>
      rw [hold] at hprice
      obtain ⟨new, hasks, hafter⟩ := hprice
      exact Or.inr ⟨old, _, rfl, .price hasks, hafter⟩
  refine Yields.bind hql ?_
  intro _ w₂ hboth
  -- Without a row at the start there is none to read back.
  cases hold : boundsAt w.db player aoid with
  | none =>
    rw [hold] at hprice
    have hnone : boundsAt w₁.db player aoid = none := hprice
    rw [hnone] at hboth
    have hread : Yields (MarketService.getFilter env player aoid) w₂
        (fun _ _ => False) fun _ t => boundsAt t.db player aoid = none := by
      refine yields_requireSubscription.mono (fun sub t h => ?_) fun _ t h => ?_
      · rw [hboth] at h
        cases h.2
      · rw [h]
        exact hboth
    refine Yields.bind (hread.mono (fun _ _ h => h) fun _ _ h => Or.inl h) ?_
    intro _ _ hfalse
    exact hfalse.elim
  | some old =>
    rw [hold] at hprice
    obtain ⟨price, hasksPrice, hmid⟩ := hprice
    rw [hmid] at hboth
    obtain ⟨ql, hasksQl, hafter⟩ := hboth
    have hback : Yields (MarketService.getFilter env player aoid) w₂
        (fun _ t => boundsAt t.db player aoid = some ⟨price, ql⟩)
        fun _ t => boundsAt t.db player aoid = some ⟨price, ql⟩ :=
      yields_requireSubscription.mono (fun _ _ h => by rw [h.1, hafter]) fun _ _ h => by
        rw [h, hafter]
    have hread : Yields (MarketService.getFilter env player aoid) w₂
        (fun _ t => boundsAt t.db player aoid = some ⟨price, ql⟩)
        fun _ t => boundsAt t.db player aoid = some ⟨price, ql⟩ ∧ Unread env player aoid t :=
      .of_run (fun _ _ hrun => hback.ok hrun) fun e _ hrun =>
        ⟨hback.error hrun, w₂, e, hrun⟩
    refine Yields.bind (hread.mono (fun _ _ h => h) fun _ t h => Or.inr ?_) ?_
    · exact ⟨old, ⟨price, ql⟩, rfl, .both hasksPrice hasksQl h.2, h.1⟩
    · intro sub t h
      exact .pure ⟨trivial, old, ⟨price, ql⟩, rfl, hasksPrice, hasksQl, h⟩

end Parts

/-! The request -/

def Done (env : Env) (player : String) (aoid : ℤ) (priceSpec qlSpec : Option String)
    (db db' : Db) : Prop :=
  ∃ old new, boundsAt db player aoid = some old ∧ AsksPrice priceSpec old.price new.price ∧
    AsksQl env qlSpec old.ql new.ql ∧ boundsAt db' player aoid = some new

def Stopped (env : Env) (player : String) (aoid : ℤ) (priceSpec qlSpec : Option String)
    (db : Db) (t : World) : Prop :=
  boundsAt t.db player aoid = boundsAt db player aoid ∨
    ∃ old new, boundsAt db player aoid = some old ∧
      Left env player aoid priceSpec qlSpec t old new ∧ boundsAt t.db player aoid = some new

theorem not_succeeded_error (status : ℕ) (detail : String) :
    ¬ Succeeded (.ok (.error status detail)) := fun h => h

/-- A refusal of the header is no success. -/
theorem header_refuses {env : Env} (xApiKey : Option String) (w : World) :
    Yields (HttpRoutes.authenticate env xApiKey) w
      (fun r _ => ∀ response, r = .error response → ¬ Succeeded (.ok response))
      fun _ _ => True := by
  have hdenied : ∀ status detail response, (.error (.error status detail) :
      Except Response AuthService.ApiKeyPrincipal) = .error response →
        ¬ Succeeded (.ok response) := by
    intro status detail response h
    rw [← Except.error.inj h]
    exact not_succeeded_error status detail
  unfold HttpRoutes.authenticate
  cases xApiKey with
  | none => exact .pure (hdenied _ _)
  | some raw =>
    dsimp only
    by_cases hempty : raw = ""
    · rw [if_pos hempty]
      exact .pure (hdenied _ _)
    · rw [if_neg hempty]
      have hany : Yields (AuthService.authenticate env raw) w (fun _ _ => True)
          fun _ _ => True := .of_run (fun _ _ _ => trivial) fun _ _ _ => trivial
      refine hany.bind fun principal t _ => ?_
      cases principal with
      | none => exact .pure (hdenied _ _)
      | some p => exact .pure fun _ h => nomatch h

theorem yields_header {env : Env} {player : String} {aoid : ℤ} (xApiKey : Option String)
    (w : World) :
    Yields (HttpRoutes.authenticate env xApiKey) w
      (fun _ t => boundsAt t.db player aoid = boundsAt w.db player aoid)
      fun _ t => boundsAt t.db player aoid = boundsAt w.db player aoid := by
  refine Keeps.yields (f := fun db => boundsAt db player aoid)
    (HttpAccess.keeps_header (A := fun op => op = .touchKey) rfl xApiKey) ?_ w
  intro op db db' note hop heffect
  unfold boundsAt
  rw [heffect.subscriptions_eq (by simp [hop, TouchesSubscriptions])]

/-- A guard only ever stops a request with an error, and leaves the bounds alone. -/
theorem yields_checkGuard {env : Env} {player : String} {aoid : ℤ} (xApiKey : Option String)
    (w : World) :
    Yields (checkGuard env xApiKey (.player player)) w
      (fun stopped t => boundsAt t.db player aoid = boundsAt w.db player aoid ∧
        ∀ response, stopped = some response → ¬ Succeeded (.ok response))
      fun _ t => boundsAt t.db player aoid = boundsAt w.db player aoid := by
  have hkeeps := @yields_header env player aoid xApiKey w
  have hrefuses := @header_refuses env xApiKey w
  have hheader : Yields (HttpRoutes.authenticate env xApiKey) w
      (fun r t => boundsAt t.db player aoid = boundsAt w.db player aoid ∧
        ∀ response, r = .error response → ¬ Succeeded (.ok response))
      fun _ t => boundsAt t.db player aoid = boundsAt w.db player aoid :=
    .of_run (fun r t hrun => ⟨hkeeps.ok hrun, hrefuses.ok hrun⟩)
      fun e t hrun => hkeeps.error hrun
  rw [HttpAccess.checkGuard_eq (by simp)]
  refine hheader.bind fun r t h => ?_
  refine .pure ⟨h.1, fun response hresponse => ?_⟩
  cases r with
  | error refusal =>
    cases hresponse
    exact h.2 response rfl
  | ok principal =>
    unfold HttpAccess.verdict at hresponse
    dsimp only at hresponse
    split at hresponse
    · rw [← Option.some.inj hresponse]
      exact not_succeeded_error _ _
    · cases hresponse

/-- The guard leaves the bounds alone, so the whole request does with them what the
handler does. -/
theorem yields_request (app : App) (xApiKey : Option String) (player : String) (aoid : ℤ)
    (priceSpec qlSpec : Option String) (w : World) :
    Yields (serve app xApiKey (.updateFilter player aoid priceSpec qlSpec)) w
      (fun r t => Succeeded (.ok r) ∧ Done app.env player aoid priceSpec qlSpec w.db t.db ∨
        ¬ Succeeded (.ok r) ∧ Stopped app.env player aoid priceSpec qlSpec w.db t)
      fun _ t => Stopped app.env player aoid priceSpec qlSpec w.db t := by
  unfold serve
  refine Yields.handle ?_ fun e t (h : Stopped app.env player aoid priceSpec qlSpec w.db t) => ?_
  · refine Yields.bind ((yields_checkGuard xApiKey w).mono (fun _ _ h => h)
      fun _ _ h => Or.inl h) fun stopped w₁ h => ?_
    obtain ⟨hbounds, hrefused⟩ := h
    cases stopped with
    | some response => exact .pure (Or.inr ⟨hrefused response rfl, Or.inl hbounds⟩)
    | none =>
      show Yields (HttpRoutes.updateFilter app.env player aoid priceSpec qlSpec) w₁ _ _
      refine (yields_updateFilterRoute priceSpec qlSpec).mono (fun r t hdone => Or.inl ?_)
        fun e t hstopped => ?_
      · rwa [hbounds] at hdone
      · rwa [hbounds] at hstopped
  · cases e with
    | market e => exact .pure (Or.inr ⟨fun hs => hs, h⟩)
    | _ => exact .throw h

/-- Either the request succeeds and both parts of its body are stored, or it fails and what
it did before is stored: nothing, the price part, or both parts when only the answer could
not be read. -/
theorem update_filter_in_parts (app : App) (xApiKey : Option String) (player : String) (aoid : ℤ)
    (priceSpec qlSpec : Option String) (w : World) :
    let r := (serve app xApiKey (.updateFilter player aoid priceSpec qlSpec)).run w
    (Succeeded r.1 → Done app.env player aoid priceSpec qlSpec w.db r.2.db) ∧
      (¬ Succeeded r.1 → Stopped app.env player aoid priceSpec qlSpec w.db r.2) := by
  intro r
  have hrequest := yields_request app xApiKey player aoid priceSpec qlSpec w
  rcases hrun : r with ⟨e | response, t⟩
  · exact ⟨fun h => h.elim, fun _ => hrequest.error hrun⟩
  · rcases hrequest.ok hrun with ⟨hok, hdone⟩ | ⟨hfail, hstopped⟩
    · exact ⟨fun _ => hdone, fun h => absurd hok h⟩
    · exact ⟨fun h => absurd h hfail, fun _ => hstopped⟩

def ring : MarketWatch where
  aoid := 1
  name := "Ring"
  ql := 10
  icon := none
  firstSeen := 0
  lastPolled := none
  autoTracked := false

def taraWatching : World where
  db := ((((Db.empty.insertUser { player := "Tara", isAdmin := false }).bind fun db =>
    db.insertApiKey "Tara" "aomk_tara" "aomk_tara" 0).bind fun db => db.insertWatch ring).bind
      fun db => db.insertSubscription { player := "Tara", aoid := 1, createdAt := 0 }).getD .empty

def calmApp : App where
  env := .calm
  searchPage _ _ _ _ _ := .ok ([], 0)
  bot := none

/-- The price part is good and the QL part is not: the request is refused with 422 and the
price bounds have changed. -/
theorem price_part_stays :
    ¬ ∀ app xApiKey player aoid priceSpec qlSpec w,
      let r := (serve app xApiKey (.updateFilter player aoid priceSpec qlSpec)).run w
      (Succeeded r.1 → Done app.env player aoid priceSpec qlSpec w.db r.2.db) ∧
        (¬ Succeeded r.1 → boundsAt r.2.db player aoid = boundsAt w.db player aoid) := by
  intro h
  have hfail := (h calmApp (some "aomk_tara") "Tara" 1 (some "1-5") (some "high") taraWatching).2
  have hsame := hfail (by decide +kernel)
  revert hsame
  decide +kernel

end AoMarket.FilterUpdate
