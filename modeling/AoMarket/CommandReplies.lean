import AoMarket.Commands
import AoMarket.RangeSpecs
import AoMarket.ServiceCalls

/-!
Which commands get a reply. The dispatcher reports the program's own errors and no
others, so what decides are the numbers of the message: those the server cannot
take, the digits too many for int() and the prices too large for a float end the
command with an exception.
-/

namespace AoMarket.CommandReplies

open Coroutine Outcomes Relational Models Database OrderBook PyText Environment SettingsRepo
  MarketService Rendering Commands BookNumbers SettingTypes ServiceCalls
open MarketRepo hiding logAction register clearFilter
open HttpRoutes (App)

/-! Texts -/

section Texts
variable {py : Runtime}

def PriceFits (s : MarketSubscription) : Prop :=
  (∀ n ∈ s.minPrice, Fits n) ∧ ∀ n ∈ s.maxPrice, Fits n

theorem bound_fits {bound : Option ℤ} (h : ∀ n ∈ bound, Fits n) :
    ∃ text, Rendering.bound (fun n => Parsing.formatCredits PyNumber.double py (.int n)) bound =
      .ok text := by
  cases bound with
  | none => exact ⟨_, rfl⟩
  | some n => exact credits_fits (h n rfl)

theorem describe_fits {s : MarketSubscription} (h : PriceFits s) :
    ∃ text, describeSubscription py s = .ok text := by
  obtain ⟨lo, hlo⟩ := @bound_fits py s.minPrice h.1
  obtain ⟨hi, hhi⟩ := @bound_fits py s.maxPrice h.2
  have hql : ∀ ql : Option ℤ, ∃ text, Rendering.bound (fun n => .ok (toString n)) ql = .ok text := by
    intro ql
    cases ql with
    | none => exact ⟨_, rfl⟩
    | some n => exact ⟨_, rfl⟩
  obtain ⟨lowQl, hlowQl⟩ := hql s.minQl
  obtain ⟨highQl, hhighQl⟩ := hql s.maxQl
  unfold describeSubscription describeFilter
  simp only [hlo, hhi, hlowQl, hhighQl, ok_bind]
  split
  · exact ⟨_, rfl⟩
  · split
    · split
      · exact ⟨_, rfl⟩
      · exact ⟨_, rfl⟩
    · split
      · exact ⟨_, rfl⟩
      · exact ⟨_, rfl⟩

theorem renderWatchlist_fits {rows : List MarketSubscription} (h : ∀ s ∈ rows, PriceFits s) :
    ∃ text, renderWatchlist py rows = .ok text := by
  have hline : ∀ s ∈ rows, ∃ line, (do
      return s!"aoid {s.aoid} - {← describeSubscription py s}" : Except PyErr String) = .ok line := by
    intro s hs
    obtain ⟨text, htext⟩ := @describe_fits py s (h s hs)
    rw [htext]
    exact ⟨_, rfl⟩
  obtain ⟨texts, htexts⟩ := mapM_ok hline
  unfold renderWatchlist
  rw [htexts]
  split
  · exact ⟨_, rfl⟩
  · exact ⟨_, rfl⟩

/-- The best price of a list of orders has a text, if there is one. -/
theorem best_fits {α : Type} {price : α → PyVal} {extreme : PyVal → List PyVal → Option PyVal}
    (hextreme : ∀ best l, IntWith Fits best → (∀ v ∈ l, IntWith Fits v) →
      ∃ v, extreme best l = some v ∧ IntWith Fits v)
    {orders : List α} (h : ∀ o ∈ orders, IntWith Fits (price o)) :
    orders = [] ∨ ∃ o os best text, orders = o :: os ∧
      extreme (price o) (os.map price) = some best ∧ credits py best = .ok text := by
  cases orders with
  | nil => exact Or.inl rfl
  | cons o os =>
    obtain ⟨ho, hos⟩ := List.forall_mem_cons.mp h
    obtain ⟨best, hbest, n, rfl, hn⟩ := hextreme (price o) (os.map price) ho
      (List.forall_mem_map.mpr hos)
    obtain ⟨text, htext⟩ := @credits_fits py n hn
    exact Or.inr ⟨o, os, _, text, rfl, hbest, htext⟩

theorem renderSummary_fits {book : Orders} (htyped : book.WellTyped)
    (hprices : ∀ x ∈ book.orders, Fits (price x)) : ∃ text, renderSummary py book = .ok text := by
  obtain ⟨hsells, hbuys⟩ := prices_int htyped hprices
  have hsell := @best_fits py _ _ _ (fun _ _ => @minFrom_int Fits py _ _) _ hsells
  have hbuy := @best_fits py _ _ _ (fun _ _ => @maxFrom_int Fits py _ _) _ hbuys
  unfold renderSummary
  rcases hsell with hsell | ⟨o, os, best, text, hsell, hbest, htext⟩
  · rcases hbuy with hbuy | ⟨o', os', best', text', hbuy, hbest', htext'⟩
    · rw [hsell, hbuy]
      exact ⟨_, rfl⟩
    · rw [hsell, hbuy]
      simp only [hbest', orTypeError, ok_bind, htext']
      exact ⟨_, rfl⟩
  · rcases hbuy with hbuy | ⟨o', os', best', text', hbuy, hbest', htext'⟩
    · rw [hsell, hbuy]
      simp only [hbest, orTypeError, ok_bind, htext]
      exact ⟨_, rfl⟩
    · rw [hsell, hbuy]
      simp only [hbest, hbest', orTypeError, ok_bind, htext, htext']
      exact ⟨_, rfl⟩

theorem renderOverview_fits {itemName : String} {aoid ql : ℤ} {orders : Option Orders}
    (h : ∀ book ∈ orders, book.WellTyped ∧ ∀ x ∈ book.orders, Fits (price x)) :
    ∃ text, renderOverview py itemName aoid ql orders = .ok text := by
  cases orders with
  | none => exact ⟨_, rfl⟩
  | some book =>
    obtain ⟨htyped, hprices⟩ := h book rfl
    obtain ⟨text, htext⟩ := @renderSummary_fits py book htyped hprices
    unfold renderOverview
    simp only [htext, ok_bind]
    exact ⟨_, rfl⟩

end Texts

/-! Filters -/

def InRange (P : ℤ → Prop) (range : Option ℤ × Option ℤ) : Prop :=
  (∀ n ∈ range.1, P n) ∧ ∀ n ∈ range.2, P n

/-- The range is read without an exception, and its bounds have the property. -/
def RangeFits (P : ℤ → Prop) (parser : String → Except PyErr (Option ℤ)) (spec : String) : Prop :=
  ∃ r, Parsing.parseRange spec parser = .ok r ∧ ∀ range ∈ r, InRange P range

section Ranges
variable {P : ℤ → Prop} {int : ℤ → Except PyErr Unit}

theorem check_ok (hint : ∀ n, P n → int n = .ok ()) (hzero : P 0) {range : Option ℤ × Option ℤ}
    (h : InRange P range) : (do int (range.1.getD 0); int (range.2.getD 0)) = .ok () := by
  have hbound : ∀ b : Option ℤ, (∀ n ∈ b, P n) → int (b.getD 0) = .ok () := by
    intro b hb
    cases b with
    | none => exact hint 0 hzero
    | some n => exact hint n (hb n rfl)
  rw [hbound range.1 h.1, ok_bind, hbound range.2 h.2]

theorem check_error (hint : ∀ n, P n → int n = .ok ()) (herror : ∀ n, ¬ P n → int n = .error .database)
    (hzero : P 0) {range : Option ℤ × Option ℤ} (h : ¬ InRange P range) :
    (do int (range.1.getD 0); int (range.2.getD 0)) = .error .database := by
  have hbound : ∀ b : Option ℤ, ¬ (∀ n ∈ b, P n) → int (b.getD 0) = .error .database := by
    intro b hb
    cases b with
    | none => exact absurd (fun n hn => nomatch hn) hb
    | some n => exact herror n fun hn => hb fun m hm => Option.some.inj hm ▸ hn
  by_cases hlo : ∀ n ∈ range.1, P n
  · have hhi : ¬ ∀ n ∈ range.2, P n := fun hhi => h ⟨hlo, hhi⟩
    have hfirst : int (range.1.getD 0) = .ok () := by
      cases hsome : range.1 with
      | none => exact hint 0 hzero
      | some n => exact hint n (hlo n hsome)
    rw [hfirst, ok_bind, hbound range.2 hhi]
  · rw [hbound range.1 hlo, error_bind]

theorem parseCredits_error {text : String} {e : PyErr}
    (h : Parsing.parseCredits PyNumber.double text = .error e) : e = .overflow := by
  have hfinite : ∀ q : ℚ, Parsing.finite PyNumber.double q = .error e → e = .overflow := by
    intro q hq
    unfold Parsing.finite at hq
    split at hq
    · cases hq
    · cases hq
      rfl
  unfold Parsing.parseCredits at h
  dsimp only at h
  split at h
  · cases h
  · split at h
    · cases h
    · rcases bind_eq_error h with h | ⟨x, h⟩
      · exact hfinite _ h
      · rcases bind_eq_error h with h | ⟨y, h⟩
        · exact hfinite _ h
        · cases h

theorem parseQl_error {py : Runtime} {text : String} {e : PyErr}
    (h : Parsing.parseQl py text = .error e) : ∃ message, e = .value message := by
  unfold Parsing.parseQl at h
  dsimp only at h
  split at h
  · cases h
  · split at h
    · cases h
    · cases h
      exact ⟨_, rfl⟩

end Ranges

section Filters
variable {app : App} {player : String} {w : World} {aoid : ℤ}

/-- The subscription is found, or its absence is reported. -/
theorem yields_requireSubscription (serving : Serving app.env player) (haoid : Fits aoid) :
    Yields (requireSubscription app.env player aoid) w
      (fun sub w' => lookup MarketSubscription.key (player, aoid) w.db.subscriptions = some sub ∧
        w'.db = w.db)
      fun e _ => Reported e ∧
        lookup MarketSubscription.key (player, aoid) w.db.subscriptions = none := by
  refine (returns_getSubscription serving haoid).bind fun sub w₁ hsub => ?_
  cases sub with
  | some s => exact Yields.pure ⟨hsub.1.symm, hsub.2⟩
  | none => exact Yields.throw ⟨⟨_, rfl⟩, hsub.1.symm⟩

variable {P : ℤ → Prop} {parser : String → Except PyErr (Option ℤ)} {spec : String}
  {check : Option ℤ × Option ℤ → Except PyErr Unit}
  {f : Option ℤ × Option ℤ → MarketSubscription → MarketSubscription}
  {hf : ∀ range r, (f range r).key = r.key}

/-- Within its limits the command stores a range that the columns hold, or raises an error that
becomes a reply. -/
theorem yields_setFilter (serving : Serving app.env player) (haoid : Fits aoid)
    (hcheck : ∀ range, InRange P range → check range = .ok ())
    (hrange : (player, aoid) ∈ w.db.subscriptions.map MarketSubscription.key →
      RangeFits P parser spec) :
    Yields (setFilter app.env player aoid spec parser fun lo hi =>
        MarketRepo.updateFilter app.env player aoid (check (lo, hi)) (f (lo, hi)) (hf (lo, hi))) w
      (fun _ w' => ∃ range, InRange P range ∧ w'.db =
        w.db.updateSubscriptions (fun s => s.key == (player, aoid)) (f range) (hf range))
      fun e _ => Reported e := by
  have hname : text app.env player = .ok () := if_pos serving.name
  unfold RangeFits at hrange
  unfold setFilter
  generalize Parsing.parseRange spec parser = result at hrange ⊢
  refine Yields.bind ((yields_requireSubscription serving haoid).mono (fun _ _ h => h)
    fun _ _ h => h.1) fun sub w₁ hsub => ?_
  have hmem : (player, aoid) ∈ w.db.subscriptions.map MarketSubscription.key := by
    obtain ⟨hsub, hkey⟩ := (lookup_eq_some w.db.sound.sub_key).mp hsub.1
    exact hkey ▸ List.mem_map_of_mem hsub
  obtain ⟨r, rfl, hfits⟩ := hrange hmem
  cases r with
  | none => exact Yields.throw ⟨_, rfl⟩
  | some range =>
    obtain ⟨lo, hi⟩ := range
    have hin := hfits (lo, hi) rfl
    have hupdate : Returns (MarketRepo.updateFilter app.env player aoid (check (lo, hi)) (f (lo, hi))
        (hf (lo, hi))) w₁ fun _ w' => w'.db =
          w₁.db.updateSubscriptions (fun s => s.key == (player, aoid)) (f (lo, hi)) (hf (lo, hi)) := by
      apply returns_statement (serving.up _)
      · rw [hcheck (lo, hi) hin, ok_bind, hname, ok_bind, int8_ok haoid, ok_bind]
        rfl
      · rfl
    rw [hsub.2] at hupdate
    exact hupdate.mono (fun _ _ h => ⟨(lo, hi), hin, h⟩) fun _ _ h => h.elim

/-- Outside of them the exception is none that becomes a reply. -/
theorem escapes_setFilter (serving : Serving app.env player)
    (hcheck : ∀ range, ¬ InRange P range → check range = .error .database)
    (hparser : ∀ side e, parser side = .error e → ¬ Reported e)
    (h : ¬ (Fits aoid ∧ ((player, aoid) ∈ w.db.subscriptions.map MarketSubscription.key →
      RangeFits P parser spec))) :
    Escapes (setFilter app.env player aoid spec parser fun lo hi =>
      MarketRepo.updateFilter app.env player aoid (check (lo, hi)) (f (lo, hi)) (hf (lo, hi))) w := by
  by_cases haoid : Fits aoid
  · have hbad : (player, aoid) ∈ w.db.subscriptions.map MarketSubscription.key ∧
        ¬ RangeFits P parser spec := Classical.not_imp.mp fun hall => h ⟨haoid, hall⟩
    refine Yields.bind ((yields_requireSubscription serving haoid).mono (fun _ _ h => h)
      fun _ _ h => absurd hbad.1 (lookup_eq_none.mp h.2)) fun sub w₁ _ => ?_
    cases hparse : Parsing.parseRange spec parser with
    | error e =>
      obtain ⟨side, hside⟩ := RangeSpecs.parseRange_error hparse
      exact Escapes.bind (hparser side e hside)
    | ok r =>
      have hnot : ¬ ∀ range ∈ r, InRange P range := fun hall => hbad.2 ⟨r, hparse, hall⟩
      cases r with
      | none => exact absurd (fun _ hrange => nomatch hrange) hnot
      | some range =>
        obtain ⟨lo, hi⟩ := range
        have hrange : ¬ InRange P (lo, hi) := fun hin => hnot fun _ heq => Option.some.inj heq ▸ hin
        have hupdate : Escapes (MarketRepo.updateFilter app.env player aoid (check (lo, hi))
            (f (lo, hi)) (hf (lo, hi))) w₁ := by
          apply escapes_statement (serving.up _)
          rw [hcheck _ hrange, error_bind]
        exact hupdate
  · exact Escapes.bind (Escapes.bind (escapes_getSubscription serving haoid))

/-- The prices in the table are 64-bit numbers, as their columns are. -/
def PricesFit (db : Db) : Prop := ∀ s ∈ db.subscriptions, PriceFits s

theorem pricesFit_update {db : Db} (h : PricesFit db) {p : MarketSubscription → Bool}
    {g : MarketSubscription → MarketSubscription} {hg : ∀ r, (g r).key = r.key}
    (hnew : ∀ s, PriceFits s → PriceFits (g s)) : PricesFit (db.updateSubscriptions p g hg) := by
  intro s hs
  obtain ⟨old, hold, rfl⟩ := List.mem_map.mp hs
  split
  · exact hnew old (h old hold)
  · exact h old hold

/-- A price filter within its limits keeps every stored price a number of its column. -/
theorem yields_setPriceFilter (serving : Serving app.env player) (haoid : Fits aoid)
    (hprices : PricesFit w.db)
    (hrange : (player, aoid) ∈ w.db.subscriptions.map MarketSubscription.key →
      RangeFits Fits (Parsing.parseCredits PyNumber.double) spec) :
    Yields (setPriceFilter app.env player aoid spec) w (fun _ w' => PricesFit w'.db)
      fun e _ => Reported e := by
  have hset := @yields_setFilter app player w aoid Fits (Parsing.parseCredits PyNumber.double) spec
    (fun range => do int8 (range.1.getD 0); int8 (range.2.getD 0))
    (fun range s => { s with minPrice := range.1, maxPrice := range.2 }) (fun _ _ => rfl) serving
    haoid (fun range => check_ok (fun _ => int8_ok) (by decide)) hrange
  refine Yields.mono hset ?_ fun _ _ h => h
  rintro _ w' ⟨range, hin, hdb⟩
  rw [hdb]
  exact pricesFit_update hprices fun _ _ => hin

theorem yields_setQlFilter (serving : Serving app.env player) (haoid : Fits aoid)
    (hprices : PricesFit w.db)
    (hrange : (player, aoid) ∈ w.db.subscriptions.map MarketSubscription.key →
      RangeFits Fits4 (Parsing.parseQl app.env.py) spec) :
    Yields (setQlFilter app.env player aoid spec) w (fun _ w' => PricesFit w'.db)
      fun e _ => Reported e := by
  have hset := @yields_setFilter app player w aoid Fits4 (Parsing.parseQl app.env.py) spec
    (fun range => do int4 (range.1.getD 0); int4 (range.2.getD 0))
    (fun range s => { s with minQl := range.1, maxQl := range.2 }) (fun _ _ => rfl) serving
    haoid (fun range => check_ok (fun _ => int4_ok) (by decide)) hrange
  refine Yields.mono hset ?_ fun _ _ h => h
  rintro _ w' ⟨range, _, hdb⟩
  rw [hdb]
  exact pricesFit_update hprices fun _ h => h

theorem escapes_setPriceFilter (serving : Serving app.env player)
    (h : ¬ (Fits aoid ∧ ((player, aoid) ∈ w.db.subscriptions.map MarketSubscription.key →
      RangeFits Fits (Parsing.parseCredits PyNumber.double) spec))) :
    Escapes (setPriceFilter app.env player aoid spec) w := by
  refine @escapes_setFilter app player w aoid Fits (Parsing.parseCredits PyNumber.double) spec
    (fun range => do int8 (range.1.getD 0); int8 (range.2.getD 0))
    (fun range s => { s with minPrice := range.1, maxPrice := range.2 }) (fun _ _ => rfl) serving
    (fun range => check_error (fun _ => int8_ok) (fun _ => int8_error) (by decide)) ?_ h
  rintro side e he ⟨m, rfl⟩
  cases parseCredits_error he

theorem escapes_setQlFilter (serving : Serving app.env player)
    (h : ¬ (Fits aoid ∧ ((player, aoid) ∈ w.db.subscriptions.map MarketSubscription.key →
      RangeFits Fits4 (Parsing.parseQl app.env.py) spec))) :
    Escapes (setQlFilter app.env player aoid spec) w := by
  refine @escapes_setFilter app player w aoid Fits4 (Parsing.parseQl app.env.py) spec
    (fun range => do int4 (range.1.getD 0); int4 (range.2.getD 0))
    (fun range s => { s with minQl := range.1, maxQl := range.2 }) (fun _ _ => rfl) serving
    (fun range => check_error (fun _ => int4_ok) (fun _ => int4_error) (by decide)) ?_ h
  rintro side e he ⟨m, rfl⟩
  obtain ⟨_, hvalue⟩ := parseQl_error he
  cases hvalue

theorem yields_getFilter (serving : Serving app.env player) (haoid : Fits aoid)
    (hprices : PricesFit w.db) :
    Yields (getFilter app.env player aoid) w (fun sub _ => PriceFits sub) fun e _ => Reported e := by
  refine (yields_requireSubscription serving haoid).mono (fun sub _ h => ?_) fun _ _ h => h.1
  exact hprices sub ((lookup_eq_some w.db.sound.sub_key).mp h.1).1

theorem escapes_getFilter (serving : Serving app.env player) (haoid : ¬ Fits aoid) :
    Escapes (getFilter app.env player aoid) w :=
  Escapes.bind (escapes_getSubscription serving haoid)

end Filters

/-! Keys and status -/

/-- No key was drawn that will be drawn again. -/
def FreshTokens (env : Env) (db : Db) : Prop :=
  ∀ t, env.hash ("aomk_" ++ env.token t) ∉ db.apiKeys.map ApiKey.keyHash

section Reading
variable {app : App} {player : String} {w : World}

theorem returns_revokeAllForPlayer (serving : Serving app.env player) :
    Returns (AuthService.revokeAllForPlayer app.env player) w fun _ w' =>
      w'.db.users = w.db.users ∧
        w'.db.apiKeys.map ApiKey.keyHash = w.db.apiKeys.map ApiKey.keyHash := by
  have hname : text app.env player = .ok () := if_pos serving.name
  apply returns_statement (serving.up _)
  · rw [hname, ok_bind]
    rfl
  · exact ⟨rfl, map_updateRows _ fun _ => rfl⟩

theorem returns_generateKey (serving : Serving app.env player) (hfresh : FreshTokens app.env w.db) :
    Returns (AuthService.generateKey app.env player) w fun _ _ => True := by
  have hrest : ∀ w' : World, player ∈ w'.db.users.map MarketUser.player →
      w'.db.apiKeys = w.db.apiKeys → Returns (do
        let _ ← AuthService.revokeAllForPlayer app.env player
        let raw ← AuthService.generateToken app.env
        AuthService.create app.env player (app.env.hash raw) (AuthService.tokenPrefix raw)
        return raw) w' fun _ _ => True := by
    intro w' hplayer hkeys
    refine (returns_revokeAllForPlayer serving).bind fun _ w₁ hrevoked => ?_
    have htoken : Returns (AuthService.generateToken app.env) w₁ fun raw w₂ =>
        raw = "aomk_" ++ app.env.token w₁.tick ∧ w₂.db = w₁.db := returns_external rfl ⟨rfl, rfl⟩
    refine htoken.bind fun raw w₂ hraw => ?_
    refine Returns.bind (Q := fun _ _ => True) ?_ fun _ _ _ => Yields.pure trivial
    have hregistered : player ∈ w₂.db.users.map MarketUser.player := by
      rwa [hraw.2, hrevoked.1]
    have hnew : app.env.hash raw ∉ w₂.db.apiKeys.map ApiKey.keyHash := by
      rw [hraw.2, hrevoked.2, hkeys, hraw.1]
      exact hfresh _
    obtain ⟨db, hdb⟩ := (@Db.insertApiKey_accepts w₂.db player (app.env.hash raw)
      (AuthService.tokenPrefix raw) (app.env.clock w₂.tick)).mpr ⟨hregistered, hnew⟩
    apply returns_statement (serving.up _)
    · rw [hdb]
      rfl
    · trivial
  refine (returns_isRegistered serving).bind fun registered w₁ hregistered => ?_
  cases registered with
  | true =>
    apply hrest
    · rw [hregistered.2]
      exact hregistered.1.mp rfl
    · rw [hregistered.2]
  | false =>
    have hnew : player ∉ w₁.db.users.map MarketUser.player := by
      rw [hregistered.2]
      exact mt hregistered.1.mpr (by decide)
    refine (returns_insertUser serving hnew).bind fun _ w₂ huser => ?_
    exact hrest w₂ huser.1 (huser.2.2.trans (by rw [hregistered.2]))

theorem returns_statusSummary (h : SettingsRun app w) (hup : ∀ t, app.env.dbFault t = none) :
    Returns (statusSummary app.env) w fun _ _ => True := by
  have hcount : ∀ auto (w₁ : World),
      Returns (countWatch app.env auto) w₁ fun _ w' => w'.db = w₁.db := by
    intro auto w₁
    cases auto with
    | none => exact returns_query (hup _) rfl rfl
    | some b => exact returns_query (hup _) rfl rfl
  refine (hcount none w).bind fun _ w₁ h₁ => ?_
  refine (hcount (some true) w₁).bind fun _ w₂ h₂ => ?_
  have hrun₂ : SettingsRun app w₂ := h.elsewhere (by rw [h₂, h₁])
  refine (returns_getBool hrun₂ hup (by decide)).bind fun _ w₃ h₃ => ?_
  have hrun₃ : SettingsRun app w₃ := hrun₂.elsewhere (by rw [h₃.2])
  refine (returns_getInt hrun₃ hup (by decide)).bind fun _ w₄ h₄ => ?_
  have hrun₄ : SettingsRun app w₄ := hrun₃.elsewhere (by rw [h₄])
  exact (returns_getInt hrun₄ hup (by decide)).bind fun _ _ _ => Yields.pure trivial

/-- The stats of a player whose name can be stored. -/
theorem returns_userStats (hup : ∀ t, app.env.dbFault t = none) {target : String}
    (hname : app.env.storable target = true) :
    Returns (userStats app.env target) w fun _ _ => True := by
  have htext : text app.env target = .ok () := if_pos hname
  refine Returns.bind (Q := fun _ _ => True) ?_ fun summary w₁ _ => ?_
  · apply returns_query (hup _)
    · rw [htext, ok_bind]
      rfl
    · trivial
  obtain ⟨total, firstSeen⟩ := summary
  dsimp only
  split
  · exact Yields.pure trivial
  · refine Returns.bind (Q := fun _ _ => True) ?_ fun breakdown w₂ _ => ?_
    · apply returns_query (hup _)
      · rw [htext, ok_bind]
        rfl
      · trivial
    · refine Returns.bind (Q := fun _ _ => True) ?_ fun _ _ _ => Yields.pure trivial
      apply returns_query (hup _)
      · rw [htext, ok_bind]
        rfl
      · trivial

theorem escapes_userStats (hup : ∀ t, app.env.dbFault t = none) {target : String}
    (hname : ¬ app.env.storable target = true) : Escapes (userStats app.env target) w := by
  have htext : text app.env target = .error .database := if_neg hname
  refine Escapes.bind (escapes_query (hup _) ?_)
  rw [htext, error_bind]

end Reading

/-! Numbers of the message -/

section Numbers
variable {app : App} {w : World} {C : ℤ → Prop} {digits : String}

def Number (py : Runtime) (C : ℤ → Prop) (digits : String) : Prop :=
  ∃ n, parseInt py.decimal digits = some n ∧ C n

theorem parseAoid_eq {n : ℤ} (h : parseInt app.env.py.decimal digits = some n) :
    parseAoid app.env digits = pure n := by
  unfold parseAoid
  rw [h]

theorem escapes_parseAoid (h : parseInt app.env.py.decimal digits = none) :
    Escapes (parseAoid app.env digits) w := by
  unfold parseAoid
  rw [h]
  exact Yields.throw fun ⟨_, hm⟩ => nomatch hm

theorem replies_number {f : ℤ → M String} (h : Number app.env.py C digits)
    (hf : ∀ n, C n → Replies (f n) w) : Replies (parseAoid app.env digits >>= f) w := by
  obtain ⟨n, hn, hc⟩ := h
  rw [parseAoid_eq hn]
  exact hf n hc

theorem escapes_number {f : ℤ → M String} (h : ¬ Number app.env.py C digits)
    (hf : ∀ n, ¬ C n → Escapes (f n) w) : Escapes (parseAoid app.env digits >>= f) w := by
  cases hparse : parseInt app.env.py.decimal digits with
  | none => exact Escapes.bind (escapes_parseAoid hparse)
  | some n =>
    rw [parseAoid_eq hparse]
    exact hf n fun hc => h ⟨n, hparse, hc⟩

/-- Several numbers, all of which have the property. -/
theorem returns_parseAll {texts : List String} (h : ∀ s ∈ texts, Number app.env.py C s) :
    Returns (texts.mapM (parseAoid app.env)) w fun ns w' => (∀ n ∈ ns, C n) ∧ w' = w := by
  induction texts with
  | nil => exact Yields.pure ⟨by simp, rfl⟩
  | cons s rest ih =>
    obtain ⟨⟨n, hn, hc⟩, hrest⟩ := List.forall_mem_cons.mp h
    rw [List.mapM_cons, parseAoid_eq hn]
    refine (ih hrest).bind fun ns w₁ hns => Yields.pure ⟨?_, hns.2⟩
    exact List.forall_mem_cons.mpr ⟨hc, hns.1⟩

theorem yields_parseAoid (digits : String) :
    Yields (parseAoid app.env digits) w (fun _ w' => w' = w) fun e _ => ¬ Reported e := by
  unfold parseAoid
  split
  · exact Yields.pure rfl
  · exact Yields.throw fun ⟨_, hm⟩ => nomatch hm

theorem yields_parseAll (texts : List String) :
    Yields (texts.mapM (parseAoid app.env)) w (fun _ w' => w' = w) fun e _ => ¬ Reported e := by
  induction texts with
  | nil => exact Yields.pure rfl
  | cons s rest ih =>
    rw [List.mapM_cons]
    refine Yields.bind (yields_parseAoid s) fun n w₁ hw₁ => ?_
    rw [hw₁]
    exact Yields.bind ih fun _ _ hw₂ => Yields.pure hw₂

/-- Several numbers, one of which lacks it: if they are numbers at all, they are handed on. -/
theorem yields_parseAll_of_not {texts : List String} (h : ¬ ∀ s ∈ texts, Number app.env.py C s) :
    Yields (texts.mapM (parseAoid app.env)) w (fun ns w' => (∃ n ∈ ns, ¬ C n) ∧ w' = w)
      fun e _ => ¬ Reported e := by
  induction texts with
  | nil => exact absurd (by simp) h
  | cons s rest ih =>
    rw [List.mapM_cons]
    cases hparse : parseInt app.env.py.decimal s with
    | none =>
      exact Yields.bind (escapes_parseAoid hparse) fun _ _ hno => hno.elim
    | some n =>
      rw [parseAoid_eq hparse, Coro.bind_ret]
      by_cases hc : C n
      · have hrest : ¬ ∀ s ∈ rest, Number app.env.py C s :=
          fun hall => h (List.forall_mem_cons.mpr ⟨⟨n, hparse, hc⟩, hall⟩)
        refine Yields.bind (ih hrest) fun ns w₁ hns => Yields.pure ⟨?_, hns.2⟩
        obtain ⟨m, hm, hbad⟩ := hns.1
        exact ⟨m, List.mem_cons_of_mem n hm, hbad⟩
      · exact Yields.bind (yields_parseAll rest) fun ns w₁ hw₁ =>
          Yields.pure ⟨⟨n, List.mem_cons_self, hc⟩, hw₁⟩

end Numbers

/-! Commands -/

def statsTarget (player : String) (gs : Regex.Groups) : String :=
  if strip (textOf gs 1) = "" then player else strip (textOf gs 1)

/-- The item is not known to the service, or its id fits the columns. -/
def Trackable (env : Env) (w : World) (aoid : ℤ) : Prop :=
  Fits aoid ∨ env.getItem w.tick aoid = .ok none

/-- The id fits, and where the player watches the item the range can be stored. -/
def Settable (player : String) (w : World) (readable : Prop) (aoid : ℤ) : Prop :=
  Fits aoid ∧ ((player, aoid) ∈ w.db.subscriptions.map MarketSubscription.key → readable)

/-- What a command needs of the numbers and texts of its message. -/
def Within (env : Env) (player : String) (w : World) (gs : Regex.Groups) : Command → Prop
  | .userStats => env.storable (statsTarget player gs) = true
  | .filterPrice => Number env.py (Settable player w
      (RangeFits Fits (Parsing.parseCredits PyNumber.double) (strip (textOf gs 2)))) (textOf gs 1)
  | .filterQl => Number env.py (Settable player w
      (RangeFits Fits4 (Parsing.parseQl env.py) (strip (textOf gs 2)))) (textOf gs 1)
  | .filterClear | .filterShow | .unwatch => Number env.py Fits (textOf gs 1)
  | .unwatchBulk => ∀ digits ∈ splitNumbers (strip (textOf gs 1)), Number env.py Fits digits
  | .watchAoid | .overview => Number env.py (Trackable env w) (textOf gs 1)
  | _ => True

section Dispatch
variable {app : App} {player : String} {w : World} {gs : Regex.Groups}

/-- A part that returns or reports, followed by one that does. -/
theorem Replies.bind {α β : Type} {p : M α} {f : α → M β} (hp : Replies p w)
    (hf : ∀ a w', Replies (f a) w') : Replies (p >>= f) w :=
  Yields.bind hp fun a w' _ => hf a w'

theorem replies_pure {α : Type} (a : α) : Replies (pure a : M α) w := Yields.pure trivial

theorem replies_of_returns {α : Type} {p : M α} {Q : α → World → Prop} (h : Returns p w Q) :
    Replies p w := h.mono (fun _ _ _ => trivial) fun _ _ hno => hno.elim

theorem replies_text {r : Except PyErr String} (h : ∃ text, r = .ok text) :
    Replies (Coro.ofExcept r) w := by
  obtain ⟨text, rfl⟩ := h
  exact replies_pure text

theorem returns_statusDetails (hup : ∀ t, app.env.dbFault t = none) :
    Returns (statusDetails app.env 500 0) w fun _ w' => w'.db = w.db := by
  unfold statusDetails MarketRepo.listWatch
  apply returns_query (hup _)
  · unfold window
    rw [int8_ok (by decide), ok_bind, int8_ok (by decide), ok_bind, if_neg (by decide)]
    rfl
  · rfl

/-- The answer of the two commands that set a filter. -/
theorem replies_updated (serving : Serving app.env player) {aoid : ℤ} (haoid : Fits aoid)
    (hprices : PricesFit w.db) (header : String) :
    Replies (do
      let sub ← getFilter app.env player aoid
      return header ++ (← Coro.ofExcept (describeSubscription app.env.py sub))) w := by
  refine Yields.bind (yields_getFilter serving haoid hprices) fun sub w₁ hsub => ?_
  exact Replies.bind (replies_text (describe_fits hsub)) fun _ _ => replies_pure _

theorem replies_filterPrice (serving : Serving app.env player) (hprices : PricesFit w.db)
    (h : Within app.env player w gs .filterPrice) :
    Replies (dispatch app.env player .filterPrice gs) w := by
  refine replies_number h fun aoid haoid => ?_
  refine Yields.bind (yields_setPriceFilter serving haoid.1 hprices haoid.2) fun _ w₁ hprices₁ => ?_
  exact replies_updated serving haoid.1 hprices₁ _

theorem replies_filterQl (serving : Serving app.env player) (hprices : PricesFit w.db)
    (h : Within app.env player w gs .filterQl) :
    Replies (dispatch app.env player .filterQl gs) w := by
  refine replies_number h fun aoid haoid => ?_
  refine Yields.bind (yields_setQlFilter serving haoid.1 hprices haoid.2) fun _ w₁ hprices₁ => ?_
  exact replies_updated serving haoid.1 hprices₁ _

/-- The watchlist has a text, since every stored price has one. -/
theorem replies_watchlist (serving : Serving app.env player) (hprices : PricesFit w.db) :
    Replies (dispatch app.env player .watchlist gs) w := by
  have hname : text app.env player = .ok () := if_pos serving.name
  have hrows : Returns (MarketRepo.listSubscriptions app.env player) w fun rows _ =>
      ∀ s ∈ rows, PriceFits s := by
    apply returns_query (serving.up _)
    · rw [hname, ok_bind]
      rfl
    · intro s hs
      rw [List.mem_insertionSort, (app.env.rowOrder_perm _ _).mem_iff] at hs
      exact hprices s (List.mem_filter.mp hs).1
  exact hrows.bind fun rows w₁ hrows => replies_text (renderWatchlist_fits hrows)

theorem replies_search (serving : Serving app.env player) :
    Replies (dispatch app.env player .search gs) w := by
  obtain ⟨items, hitems⟩ := isOk_iff.mp (serving.searches w.tick (strip (textOf gs 1)))
  have hsearch : Returns (external .searchItems fun tick =>
      app.env.searchItems tick (strip (textOf gs 1))) w fun _ _ => True :=
    returns_external hitems trivial
  exact hsearch.bind fun _ _ _ => replies_pure _

theorem replies_overview (h : SettingsRun app w) (serving : Serving app.env player)
    (hwithin : Within app.env player w gs .overview) :
    Replies (dispatch app.env player .overview gs) w := by
  refine replies_number hwithin fun aoid haoid => ?_
  refine (returns_getItem serving aoid).bind fun item w₁ hitem => ?_
  cases item with
  | none => exact replies_pure _
  | some item =>
    have hfits : Fits aoid := haoid.resolve_right (by rw [hitem.1]; simp)
    have h₁ : SettingsRun app w₁ := h.elsewhere (by rw [hitem.2])
    have hfound := serving.items _ _ _ hitem.1
    refine (returns_watchItem h₁ serving hfits hfound).bind fun _ w₂ _ => ?_
    obtain ⟨orders, horders⟩ := isOk_iff.mp (serving.answers w₂.tick aoid)
    have hfetch : Returns (external .getOrders fun tick => app.env.getOrders tick aoid) w₂
        fun found _ => found = orders := returns_external horders rfl
    refine hfetch.bind fun found w₃ hsame => replies_text (renderOverview_fits ?_)
    intro book hbook
    rw [hsame] at hbook
    exact serving.books _ _ _ (horders.trans (congrArg Except.ok hbook))

/-- Within the numbers it can take, every command replies. -/
theorem dispatch_replies (h : SettingsRun app w) (serving : Serving app.env player)
    (hprices : PricesFit w.db) (hfresh : FreshTokens app.env w.db) {name : Command}
    (hwithin : Within app.env player w gs name) : Replies (dispatch app.env player name gs) w := by
  have hname : text app.env player = .ok () := if_pos serving.name
  cases name with
  | register => exact Replies.bind (replies_register h serving) fun _ _ => replies_pure _
  | unregister =>
    simp only [dispatch]
    split
    · exact replies_pure _
    · exact Replies.bind (replies_unregister h serving) fun _ _ => replies_pure _
  | untrackAll =>
    simp only [dispatch]
    split
    · exact replies_pure _
    · refine Replies.bind ?_ fun _ _ => replies_pure _
      have hcount : Returns (MarketRepo.countWatch app.env none) w fun _ _ => True :=
        returns_query (serving.up _) rfl trivial
      refine Replies.bind (replies_of_returns hcount) fun count w₁ => ?_
      refine Replies.bind ?_ fun _ _ => replies_pure _
      exact replies_of_returns (Q := fun _ _ => True) (returns_statement (serving.up _) rfl trivial)
  | apikeyGenerate =>
    exact Replies.bind (replies_of_returns (returns_generateKey serving hfresh))
      fun _ _ => replies_pure _
  | apikeyRevoke =>
    simp only [dispatch]
    split
    · exact replies_pure _
    · exact Replies.bind (replies_of_returns (returns_revokeAllForPlayer serving))
        fun _ _ => replies_pure _
  | apikeyList =>
    have hkeys : Returns (AuthService.listKeys app.env player) w fun _ _ => True := by
      unfold AuthService.listKeys AuthService.listForPlayer
      apply returns_query (serving.up _)
      · rw [hname, ok_bind]
        rfl
      · trivial
    refine Replies.bind (replies_of_returns hkeys) fun keys _ => ?_
    split
    · exact replies_pure _
    · exact replies_pure _
  | statusDetails =>
    refine (returns_statusDetails serving.up).bind fun rows w₁ hdb => ?_
    have h₁ : SettingsRun app w₁ := h.elsewhere (by rw [hdb])
    exact Replies.bind (replies_of_returns (returns_statusSummary h₁ serving.up))
      fun _ _ => replies_pure _
  | status =>
    exact Replies.bind (replies_of_returns (returns_statusSummary h serving.up))
      fun _ _ => replies_pure _
  | watchlist => exact replies_watchlist serving hprices
  | userStats =>
    refine Replies.bind (replies_of_returns (returns_userStats serving.up hwithin)) ?_
    intro stats _
    cases stats with
    | none => exact replies_pure _
    | some s => exact replies_pure _
  | filterPrice => exact replies_filterPrice serving hprices hwithin
  | filterQl => exact replies_filterQl serving hprices hwithin
  | filterClear =>
    refine replies_number hwithin fun aoid haoid => ?_
    refine Replies.bind ?_ fun _ _ => replies_pure _
    refine Yields.bind ((yields_requireSubscription serving haoid).mono (fun _ _ _ => trivial)
      fun _ _ h => h.1) fun _ w₁ _ => ?_
    apply replies_of_returns (Q := fun _ _ => True)
    unfold MarketRepo.clearFilter MarketRepo.updateFilter
    apply returns_statement (serving.up _)
    · rw [ok_bind, hname, ok_bind, int8_ok haoid, ok_bind]
      rfl
    · trivial
  | filterShow =>
    refine replies_number hwithin fun aoid haoid => ?_
    exact Yields.bind (yields_getFilter serving haoid hprices) fun sub _ hsub =>
      replies_text (describe_fits hsub)
  | unwatchAll =>
    simp only [dispatch]
    split
    · exact replies_pure _
    · exact Replies.bind (replies_of_returns (returns_unsubscribeAll h serving))
        fun _ _ => replies_pure _
  | unwatchBulk =>
    simp only [dispatch]
    unfold Within at hwithin
    generalize splitNumbers (strip (textOf gs 1)) = texts at hwithin ⊢
    refine (returns_parseAll hwithin).bind fun aoids w₁ haoids => ?_
    rw [haoids.2]
    refine Replies.bind (replies_of_returns (returns_unsubscribeEach h serving ?_))
      fun _ _ => replies_pure _
    intro a ha
    rw [List.mem_insertionSort, List.mem_dedup] at ha
    exact haoids.1 a ha
  | unwatch =>
    refine replies_number hwithin fun aoid haoid => ?_
    exact Replies.bind (replies_of_returns (returns_unsubscribe h serving haoid))
      fun _ _ => replies_pure _
  | watchAoid =>
    refine replies_number hwithin fun aoid haoid => ?_
    exact Replies.bind (replies_subscribe h serving haoid) fun _ _ => replies_pure _
  | watchSearch => exact replies_search serving
  | overview => exact replies_overview h serving hwithin
  | search => exact replies_search serving

/-- With a number it cannot take, a command ends in an exception. -/
theorem dispatch_escapes (h : SettingsRun app w) (serving : Serving app.env player)
    {name : Command} (hwithin : ¬ Within app.env player w gs name) :
    Escapes (dispatch app.env player name gs) w := by
  cases name with
  | userStats => exact Escapes.bind (escapes_userStats serving.up hwithin)
  | filterPrice =>
    exact escapes_number hwithin fun aoid haoid =>
      Escapes.bind (escapes_setPriceFilter serving haoid)
  | filterQl =>
    exact escapes_number hwithin fun aoid haoid => Escapes.bind (escapes_setQlFilter serving haoid)
  | filterClear =>
    exact escapes_number hwithin fun aoid haoid =>
      Escapes.bind (Escapes.bind (escapes_getFilter serving haoid))
  | filterShow =>
    exact escapes_number hwithin fun aoid haoid => Escapes.bind (escapes_getFilter serving haoid)
  | unwatch =>
    exact escapes_number hwithin fun aoid haoid => Escapes.bind (escapes_unsubscribe serving haoid)
  | unwatchBulk =>
    simp only [dispatch]
    unfold Within at hwithin
    generalize splitNumbers (strip (textOf gs 1)) = texts at hwithin ⊢
    refine Yields.bind (yields_parseAll_of_not hwithin) fun aoids w₁ haoids => ?_
    rw [haoids.2]
    refine Escapes.bind (escapes_unsubscribeEach h serving ?_)
    obtain ⟨a, ha, hbad⟩ := haoids.1
    refine ⟨a, ?_, hbad⟩
    rwa [List.mem_insertionSort, List.mem_dedup]
  | watchAoid =>
    exact escapes_number hwithin fun aoid haoid => Escapes.bind (escapes_subscribe serving haoid)
  | overview =>
    refine escapes_number hwithin fun aoid haoid => ?_
    obtain ⟨hfits, hknown⟩ := not_or.mp haoid
    refine (returns_getItem serving aoid).bind fun item w₁ hitem => ?_
    cases item with
    | none => exact absurd hitem.1 hknown
    | some item =>
      refine Escapes.bind (Escapes.bind (Escapes.bind (escapes_query (serving.up _) ?_)))
      rw [int8_error hfits, error_bind]
  | _ => exact absurd trivial hwithin

/-- A command is answered exactly when it is within its limits: the cases above put together. -/
theorem dispatchReply_isOk_iff (h : SettingsRun app w) (serving : Serving app.env player)
    (hprices : PricesFit w.db) (hfresh : FreshTokens app.env w.db) {name : Command} :
    ((dispatchReply app.env player name gs).run w).1.isOk = true ↔
      Within app.env player w gs name := by
  apply Yields.isOk_iff
  unfold dispatchReply
  by_cases hwithin : Within app.env player w gs name
  · have hreplies := (dispatch_replies h serving hprices hfresh hwithin).mono
      (fun _ _ _ => hwithin) fun _ _ he => he
    refine Yields.handle hreplies ?_
    rintro e w' ⟨m, rfl⟩
    exact Yields.pure hwithin
  · have hescapes : Yields (dispatch app.env player name gs) w
        (fun _ _ => Within app.env player w gs name) fun e _ => ¬ Reported e :=
      (dispatch_escapes h serving hwithin).mono (fun _ _ hno => hno.elim) fun _ _ he => he
    refine Yields.handle hescapes fun e w' he => ?_
    cases e with
    | market m => exact absurd ⟨m, rfl⟩ he
    | _ => exact Yields.throw hwithin

def Answerable (env : Env) (player msg : String) (w : World) : Prop :=
  readSetting env w.db "Enabled" = .ok (.bool false) ∨
    ∀ name gs, selectCommand msg = some (name, gs) → Within env player w.next gs name

/-- In every state of the settings a message gets a reply if and only if its numbers are ones
that int(), the floats and the columns can take, where they get that far. -/
theorem command_replies_iff {msg : String} (h : SettingsRun app w)
    (serving : Serving app.env player) (hprices : PricesFit w.db)
    (hfresh : FreshTokens app.env w.db) :
    ((handleCommand app.env player msg).run w).1.isOk = true ↔
      Answerable app.env player msg w := by
  obtain ⟨enabled, hread⟩ := @SettingsRun.reads_bool app w h "Enabled" (by decide)
  have hget := run_getBool_ok (serving.up w.tick) hread
  have hnext : SettingsRun app w.next := h.elsewhere rfl
  unfold handleCommand Answerable
  rw [Coro.run_bind_ok hget, hread]
  cases enabled with
  | false => exact iff_of_true rfl (Or.inl rfl)
  | true =>
    simp only [Bool.not_true, Bool.false_eq_true, if_false, Except.ok.injEq, SettingValue.bool.injEq,
      Bool.true_eq_false, false_or]
    cases hselect : selectCommand msg with
    | none => exact iff_of_true rfl fun _ _ hsome => nomatch hsome
    | some selected =>
      obtain ⟨name, gs⟩ := selected
      refine (dispatchReply_isOk_iff hnext serving hprices hfresh).trans ?_
      constructor
      · intro hwithin name' gs' hsome
        cases hsome
        exact hwithin
      · exact fun hall => hall name gs rfl

end Dispatch

/-! An id of 64 bits and one more -/

def stockedApp : App :=
  { ownedApp with
    env := { ownedApp.env with getItem := fun _ aoid => .ok (some ⟨aoid, "Ring", 10, none⟩) } }

def enabledWorld : World :=
  ((AdminCommands.handleAdminCommand stockedApp.env "Tara" "!settings Enabled true").run
    ((seedDefaults stockedApp.env).run { db := .empty }).2).2

theorem enabledWorld_run : SettingsRun stockedApp enabledWorld := .chat (.seeded rfl rfl) _ _

theorem enabledWorld_prices : PricesFit enabledWorld.db := by
  have hnone : enabledWorld.db.subscriptions = [] := by rfl
  intro s hs
  rw [hnone] at hs
  cases hs

theorem enabledWorld_tokens : FreshTokens stockedApp.env enabledWorld.db := by
  have hnone : enabledWorld.db.apiKeys = [] := by rfl
  intro t ht
  rw [hnone] at ht
  cases ht

theorem stockedApp_serving : Serving stockedApp.env "Bob" where
  up _ := rfl
  name := rfl
  lookups _ _ := rfl
  items t aoid item h := by
    cases h
    have hql : Fits4 10 := by decide
    exact ⟨rfl, hql, by simp⟩
  searches _ _ := rfl
  answers _ _ := rfl
  books t aoid book h := nomatch h
  privgroup send h := nomatch h

theorem watch_gets_reply :
    ((handleCommand stockedApp.env "Bob" "market watch 7").run enabledWorld).1.isOk = true ↔
      Answerable stockedApp.env "Bob" "market watch 7" enabledWorld :=
  command_replies_iff enabledWorld_run stockedApp_serving enabledWorld_prices enabledWorld_tokens

/-- Bob stops watching an item whose id has no column. -/
theorem wide_id_gets_no_reply :
    SettingsRun stockedApp enabledWorld ∧ Serving stockedApp.env "Bob" ∧
      PricesFit enabledWorld.db ∧ FreshTokens stockedApp.env enabledWorld.db ∧
      ((handleCommand stockedApp.env "Bob" "market unwatch 9223372036854775808").run
        enabledWorld).1 = .error .database :=
  ⟨enabledWorld_run, stockedApp_serving, enabledWorld_prices, enabledWorld_tokens, by rfl⟩

end AoMarket.CommandReplies
