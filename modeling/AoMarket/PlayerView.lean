import AoMarket.Obliviousness
import AoMarket.SettingsRepo
import AoMarket.Unregistration

/-!
What a player can see of the database. `SameView` holds between databases that agree on
the player's own rows and on the tables all players share, whatever the rows of the others
are. Each statement that a player's commands issue gives the same answer on such databases
and leaves such databases, so the repository methods cannot tell them apart.
-/

namespace AoMarket.PlayerView

open Coroutine Relational Models Database Environment Obliviousness MarketRepo AuthService
  SettingsRepo

/-- A key row without its serial number, which nobody is shown. -/
def unnumbered (k : ApiKey) : ApiKey := { k with id := 0 }

/-- The token drawn at a tick has the hash of a key of somebody else. -/
def Taken (env : Env) (p : String) (t : Tables) (tick : ℕ) : Prop :=
  ∃ k ∈ t.apiKeys, k.player ≠ p ∧ k.keyHash = env.hash ("aomk_" ++ env.token tick)

structure SameView (env : Env) (p : String) (t t' : Tables) : Prop where
  user : lookup MarketUser.player p t'.users = lookup MarketUser.player p t.users
  watch : t'.watch = t.watch
  subscriptions : (t'.subscriptions.filter fun s => s.player == p) =
    t.subscriptions.filter fun s => s.player == p
  actions : (t'.userActions.filter fun a => a.player == p) =
    t.userActions.filter fun a => a.player == p
  keys : ((t'.apiKeys.filter fun k => k.player == p).map unnumbered) =
    (t.apiKeys.filter fun k => k.player == p).map unnumbered
  taken : ∀ tick, Taken env p t' tick ↔ Taken env p t tick
  settings : t'.settings = t.settings

/-- The worlds look the same to the player, and the same has been noted since they began
with the logs `l` and `l'`. -/
structure Alike (env : Env) (p : String) (l l' : List Event) (w w' : World) : Prop where
  tick : w'.tick = w.tick
  view : SameView env p w.db.toTables w'.db.toTables
  log : ∃ noted, w.log = l ++ noted ∧ w'.log = l' ++ noted

variable {env : Env} {p : String} {l l' : List Event} {α : Type}

/-- Results of one statement on two databases. -/
inductive Matching (env : Env) (p : String) : Except PyErr (α × Db × List Event) →
    Except PyErr (α × Db × List Event) → Prop
  | error (e : PyErr) : Matching env p (.error e) (.error e)
  | ok (a : α) {db db' : Db} (note : List Event) (h : SameView env p db.toTables db'.toTables) :
      Matching env p (.ok (a, db, note)) (.ok (a, db', note))

/-! The calls -/

theorem alike_next {w w' : World} (h : Alike env p l l' w w') :
    Alike env p l l' w.next w'.next :=
  ⟨congrArg (· + 1) h.tick, h.view, h.log⟩

theorem log_append {w w' : World} (h : Alike env p l l' w w') (note : List Event) :
    ∃ noted, w.log ++ note = l ++ noted ∧ w'.log ++ note = l' ++ noted := by
  obtain ⟨noted, hw, hw'⟩ := h.log
  exact ⟨noted ++ note, by rw [hw, List.append_assoc], by rw [hw', List.append_assoc]⟩

/-- A statement whose results match on databases that look the same to the player says nothing
of their difference. -/
theorem oblivious_statement {call : Call} {f : ℕ → Db → Except PyErr (α × Db × List Event)}
    (hf : ∀ tick (db db' : Db), SameView env p db.toTables db'.toTables →
      Matching env p (f tick db) (f tick db')) :
    Oblivious (Alike env p l l') (statement env call f) := by
  refine Oblivious.act fun w w' h => ?_
  rw [h.tick]
  cases hfault : env.dbFault w.tick with
  | some e => exact ⟨rfl, alike_next h⟩
  | none =>
    dsimp only
    have hmatch := hf w.tick w.db w'.db h.view
    generalize f w.tick w.db = r at hmatch
    generalize f w.tick w'.db = r' at hmatch
    cases hmatch with
    | error e => exact ⟨rfl, alike_next h⟩
    | ok a note hview => exact ⟨rfl, rfl, hview, log_append h note⟩

/-- A query that reads the same of two databases that look alike tells the player nothing of
their difference. -/
theorem oblivious_query {call : Call} {f : ℕ → Db → Except PyErr α} {note : List Event}
    (hf : ∀ tick (db db' : Db), SameView env p db.toTables db'.toTables →
      f tick db' = f tick db) :
    Oblivious (Alike env p l l') (query env call f note) := by
  refine oblivious_statement fun tick db db' h => ?_
  rw [hf tick db db' h]
  cases f tick db with
  | error e => exact .error e
  | ok a => exact .ok a note h

theorem oblivious_external {call : Call} {f : ℕ → Except PyErr α} {note : α → List Event} :
    Oblivious (Alike env p l l') (external call f note) := by
  refine Oblivious.act fun w w' h => ?_
  rw [h.tick]
  cases hres : f w.tick with
  | error e => exact ⟨rfl, alike_next h⟩
  | ok a =>
    exact ⟨rfl, congrArg (· + 1) h.tick, h.view, log_append h (note a)⟩

/-! Results -/

theorem Matching.bind {β : Type} (x : Except PyErr β)
    {g g' : β → Except PyErr (α × Db × List Event)} (h : ∀ b, Matching env p (g b) (g' b)) :
    Matching env p (x >>= g) (x >>= g') := by
  cases x with
  | error e => exact .error e
  | ok b => exact h b

/-- An insert that both servers accept, or both refuse. -/
theorem matching_insert {o o' : Option Db} (a : α) (note : List Event)
    (hboth : (∃ db, o = some db) ↔ ∃ db', o' = some db')
    (hview : ∀ db db', o = some db → o' = some db' → SameView env p db.toTables db'.toTables) :
    Matching env p (do let db ← orRefused o; return (a, db, note))
      (do let db ← orRefused o'; return (a, db, note)) := by
  cases o with
  | none =>
    cases o' with
    | none => exact .error .database
    | some db' =>
      obtain ⟨db, hdb⟩ := hboth.mpr ⟨db', rfl⟩
      cases hdb
  | some db =>
    obtain ⟨db', rfl⟩ := hboth.mp ⟨db, rfl⟩
    exact .ok a note (hview db db' rfl rfl)

/-! Own rows -/

section Rows
variable {ρ : Type} {q own : ρ → Bool}

theorem find_own (h : ∀ r, q r = true → own r = true) (rows : List ρ) :
    (rows.filter own).find? q = rows.find? q := by
  rw [List.find?_filter]
  apply congrArg (fun f => List.find? f rows)
  funext r
  cases hq : q r with
  | false => simp
  | true => simp [h r hq]

theorem any_own (h : ∀ r, q r = true → own r = true) (rows : List ρ) :
    (rows.filter own).any q = rows.any q := by
  rw [List.any_filter]
  apply congrArg (fun f => List.any rows f)
  funext r
  cases hq : q r with
  | false => rw [Bool.and_false]
  | true => rw [h r hq, Bool.and_true]

end Rows

theorem own_key {aoid : ℤ} (s : MarketSubscription) (h : (s.key == (p, aoid)) = true) :
    (s.player == p) = true := by
  have hkey : s.key = (p, aoid) := by simpa using h
  have hplayer : s.player = p := congrArg Prod.fst hkey
  simpa using hplayer

section View
variable {t t' : Tables}

theorem lookup_subscription (h : SameView env p t t') (aoid : ℤ) :
    lookup MarketSubscription.key (p, aoid) t'.subscriptions =
      lookup MarketSubscription.key (p, aoid) t.subscriptions := by
  have hown : ∀ rows : List MarketSubscription,
      lookup MarketSubscription.key (p, aoid) (rows.filter fun s => s.player == p) =
        lookup MarketSubscription.key (p, aoid) rows := by
    refine fun rows => find_own (fun s hs => ?_) rows
    have hkey : s.key = (p, aoid) := by simpa using hs
    exact @own_key p aoid s (by rw [hkey]; simp)
  rw [← hown t'.subscriptions, ← hown t.subscriptions, h.subscriptions]

theorem any_subscription (h : SameView env p t t') (aoid : ℤ) :
    (t'.subscriptions.any fun s => s.key == (p, aoid)) =
      t.subscriptions.any fun s => s.key == (p, aoid) := by
  have hown := @any_own MarketSubscription (fun s => s.key == (p, aoid)) (fun s => s.player == p)
    own_key
  rw [← hown t'.subscriptions, ← hown t.subscriptions, h.subscriptions]

theorem mem_users_iff (h : SameView env p t t') :
    p ∈ t'.users.map MarketUser.player ↔ p ∈ t.users.map MarketUser.player := by
  rw [← not_iff_not, ← lookup_eq_none, ← lookup_eq_none, h.user]

theorem mem_keys_iff (h : SameView env p t t') (aoid : ℤ) :
    (p, aoid) ∈ t'.subscriptions.map MarketSubscription.key ↔
      (p, aoid) ∈ t.subscriptions.map MarketSubscription.key := by
  rw [← not_iff_not, ← lookup_eq_none, ← lookup_eq_none, lookup_subscription h]

end View

/-! The statements -/

section Statements
variable {db db' : Db}

theorem matching_insertUser (h : SameView env p db.toTables db'.toTables) (isAdmin : Bool) (a : α)
    (note : List Event) :
    Matching env p
      (do let db ← orRefused (db.insertUser { player := p, isAdmin := isAdmin })
          return (a, db, note))
      (do let db ← orRefused (db'.insertUser { player := p, isAdmin := isAdmin })
          return (a, db, note)) := by
  refine matching_insert a note ?_ fun d d' hd hd' => ?_
  · rw [Db.insertUser_accepts, Db.insertUser_accepts]
    exact not_congr (mem_users_iff h).symm
  · rw [Db.insertUser_eq_some hd, Db.insertUser_eq_some hd']
    exact { h with user := by rw [lookup_insert, lookup_insert, h.user] }

theorem matching_insertWatch (h : SameView env p db.toTables db'.toTables) (row : MarketWatch)
    (a : α) (note : List Event) :
    Matching env p (do let db ← orRefused (db.insertWatch row); return (a, db, note))
      (do let db ← orRefused (db'.insertWatch row); return (a, db, note)) := by
  refine matching_insert a note ?_ fun d d' hd hd' => ?_
  · rw [Db.insertWatch_accepts, Db.insertWatch_accepts, h.watch]
  · rw [(Db.insertWatch_eq_some hd).2, (Db.insertWatch_eq_some hd').2]
    exact { h with watch := by rw [h.watch] }

theorem sameView_updateWatch (h : SameView env p db.toTables db'.toTables)
    (q : MarketWatch → Bool) (f : MarketWatch → MarketWatch) (hf : ∀ r, (f r).aoid = r.aoid) :
    SameView env p (db.updateWatch q f hf).toTables (db'.updateWatch q f hf).toTables :=
  { h with watch := congrArg (updateRows q f) h.watch }

theorem sameView_deleteWatch (h : SameView env p db.toTables db'.toTables)
    (q : MarketWatch → Bool) :
    SameView env p (db.deleteWatch q).toTables (db'.deleteWatch q).toTables := by
  refine { h with watch := congrArg (deleteRows q) h.watch, subscriptions := ?_ }
  have hcomm : ∀ rows : List MarketSubscription,
      ((cascade MarketSubscription.aoid MarketWatch.aoid q db.watch rows).filter
        fun s => s.player == p) =
      cascade MarketSubscription.aoid MarketWatch.aoid q db.watch
        (rows.filter fun s => s.player == p) := by
    intro rows
    unfold cascade
    rw [List.filter_filter, List.filter_filter]
    apply congrArg (fun f => List.filter f rows)
    funext s
    exact Bool.and_comm _ _
  show ((cascade MarketSubscription.aoid MarketWatch.aoid q db'.watch db'.subscriptions).filter _) =
    (cascade MarketSubscription.aoid MarketWatch.aoid q db.watch db.subscriptions).filter _
  rw [h.watch, hcomm, hcomm, h.subscriptions]

theorem matching_insertSubscription (h : SameView env p db.toTables db'.toTables) {aoid now : ℤ}
    (a : α) (note : List Event) :
    Matching env p
      (do let db ← orRefused (db.insertSubscription { player := p, aoid := aoid, createdAt := now })
          return (a, db, note))
      (do let db ← orRefused (db'.insertSubscription { player := p, aoid := aoid, createdAt := now })
          return (a, db, note)) := by
  refine matching_insert a note ?_ fun d d' hd hd' => ?_
  · rw [Db.insertSubscription_accepts, Db.insertSubscription_accepts]
    exact and_congr (not_congr (mem_keys_iff h aoid).symm)
      (and_congr (mem_users_iff h).symm (by rw [h.watch]))
  · rw [Db.insertSubscription_eq_some hd, Db.insertSubscription_eq_some hd']
    refine { h with subscriptions := ?_ }
    rw [List.filter_append, List.filter_append, h.subscriptions]

theorem sameView_deleteSubscriptions (h : SameView env p db.toTables db'.toTables)
    (q : MarketSubscription → Bool) :
    SameView env p (db.deleteSubscriptions q).toTables (db'.deleteSubscriptions q).toTables := by
  refine { h with subscriptions := ?_ }
  have hcomm : ∀ rows : List MarketSubscription,
      ((deleteRows q rows).filter fun s => s.player == p) =
        deleteRows q (rows.filter fun s => s.player == p) := by
    intro rows
    unfold deleteRows
    rw [List.filter_filter, List.filter_filter]
    apply congrArg (fun f => List.filter f rows)
    funext s
    exact Bool.and_comm _ _
  exact (hcomm _).trans ((congrArg (deleteRows q) h.subscriptions).trans (hcomm _).symm)

theorem sameView_updateSubscriptions (h : SameView env p db.toTables db'.toTables)
    (q : MarketSubscription → Bool) (f : MarketSubscription → MarketSubscription)
    (hf : ∀ r, (f r).key = r.key) :
    SameView env p (db.updateSubscriptions q f hf).toTables
      (db'.updateSubscriptions q f hf).toTables := by
  refine { h with subscriptions := ?_ }
  have hcomm : ∀ rows : List MarketSubscription,
      ((updateRows q f rows).filter fun s => s.player == p) =
        updateRows q f (rows.filter fun s => s.player == p) := by
    intro rows
    unfold updateRows
    rw [List.filter_map]
    apply congrArg (List.map _)
    apply congrArg (fun g => List.filter g rows)
    funext s
    have hplayer : (f s).player = s.player := congrArg Prod.fst (hf s)
    cases hq : q s with
    | true => simp [hq, hplayer]
    | false => simp [hq]
  exact (hcomm _).trans ((congrArg (updateRows q f) h.subscriptions).trans (hcomm _).symm)

theorem sameView_insertAction (h : SameView env p db.toTables db'.toTables)
    (row : MarketUserAction) :
    SameView env p (db.insertAction row).toTables (db'.insertAction row).toTables := by
  refine { h with actions := ?_ }
  show ((db'.userActions ++ [row]).filter _) = (db.userActions ++ [row]).filter _
  rw [List.filter_append, List.filter_append, h.actions]

/-- Unregistering leaves nothing of the player's own, and the same of the others'. -/
theorem sameView_eraseUser (h : SameView env p db.toTables db'.toTables) :
    SameView env p (eraseUser db p).toTables (eraseUser db' p).toTables := by
  have hgone : ∀ d : Db, Unregistration.Erased p d (eraseUser d p) :=
    Unregistration.eraseUser_erased p
  have hnone : ∀ {ρ : Type} (player : ρ → String) {rows : List ρ}, p ∉ rows.map player →
      (rows.filter fun r => player r == p) = [] := by
    intro ρ player rows hnot
    apply List.filter_eq_nil_iff.mpr
    intro r hr heq
    exact hnot (List.mem_map.mpr ⟨r, hr, by simpa using heq⟩)
  have huser : ∀ d : Db, lookup MarketUser.player p (eraseUser d p).users = none :=
    fun d => lookup_eq_none.mpr fun hmem => (hgone d).gone (Or.inl hmem)
  have hsubs : ∀ d : Db, ((eraseUser d p).subscriptions.filter fun s => s.player == p) = [] :=
    fun d => hnone MarketSubscription.player fun hmem => (hgone d).gone (Or.inr (Or.inl hmem))
  have hactions : ∀ d : Db, ((eraseUser d p).userActions.filter fun a => a.player == p) = [] :=
    fun d => hnone MarketUserAction.player fun hmem =>
      (hgone d).gone (Or.inr (Or.inr (Or.inr (Or.inl hmem))))
  have hkeys : ∀ d : Db, ((eraseUser d p).apiKeys.filter fun k => k.player == p) = [] :=
    fun d => hnone ApiKey.player fun hmem =>
      (hgone d).gone (Or.inr (Or.inr (Or.inr (Or.inr hmem))))
  have htaken : ∀ (d : Db) tick,
      Taken env p (eraseUser d p).toTables tick ↔ Taken env p d.toTables tick := by
    intro d tick
    have hothers := (hgone d).others.apiKeys
    have hmem : ∀ k : ApiKey, k.player ≠ p → (k ∈ (eraseUser d p).apiKeys ↔ k ∈ d.apiKeys) := by
      intro k hk
      have hsame : k ∈ ((eraseUser d p).apiKeys.filter fun r => r.player != p) ↔
          k ∈ d.apiKeys.filter fun r => r.player != p := by rw [hothers]
      simpa [hk] using hsame
    constructor
    · rintro ⟨k, hk, hplayer, hhash⟩
      exact ⟨k, (hmem k hplayer).mp hk, hplayer, hhash⟩
    · rintro ⟨k, hk, hplayer, hhash⟩
      exact ⟨k, (hmem k hplayer).mpr hk, hplayer, hhash⟩
  exact {
    user := (huser db').trans (huser db).symm
    watch := h.watch
    subscriptions := (hsubs db').trans (hsubs db).symm
    actions := (hactions db').trans (hactions db).symm
    keys := by rw [hkeys db', hkeys db]
    taken := fun tick => (htaken db' tick).trans ((h.taken tick).trans (htaken db tick).symm)
    settings := h.settings }

/-- Keys of the player are changed the same way in both. -/
theorem sameView_updateApiKeys (h : SameView env p db.toTables db'.toTables) {q : ApiKey → Bool}
    {f : ApiKey → ApiKey}
    (hf : ∀ k, (f k).id = k.id ∧ (f k).player = k.player ∧ (f k).keyHash = k.keyHash)
    (hq : ∀ k, q (unnumbered k) = q k) (hfun : ∀ k, unnumbered (f (unnumbered k)) = unnumbered (f k)) :
    SameView env p (db.updateApiKeys q f hf).toTables (db'.updateApiKeys q f hf).toTables := by
  have hview : ∀ rows : List ApiKey,
      (((updateRows q f rows).filter fun k => k.player == p).map unnumbered) =
        ((rows.filter fun k => k.player == p).map unnumbered).map
          fun k => if q k then unnumbered (f k) else k := by
    intro rows
    have hplayer : ((fun k : ApiKey => k.player == p) ∘ fun k => if q k = true then f k else k) =
        fun k => k.player == p := by
      funext k
      cases hk : q k with
      | true => simp [hk, (hf k).2.1]
      | false => simp [hk]
    unfold updateRows
    rw [List.filter_map, hplayer, List.map_map, List.map_map]
    apply congrArg (fun g => List.map g _)
    funext k
    simp only [Function.comp_apply, hq]
    cases hk : q k with
    | true => simp [hfun]
    | false => simp
  have htaken : ∀ (d : Db) tick,
      Taken env p (d.updateApiKeys q f hf).toTables tick ↔ Taken env p d.toTables tick := by
    intro d tick
    constructor
    · rintro ⟨k, hk, hplayer, hhash⟩
      obtain ⟨k', hk', rfl⟩ := List.mem_map.mp hk
      refine ⟨k', hk', ?_, ?_⟩
      · split at hplayer
        · rwa [(hf k').2.1] at hplayer
        · exact hplayer
      · split at hhash
        · rwa [(hf k').2.2] at hhash
        · exact hhash
    · rintro ⟨k, hk, hplayer, hhash⟩
      refine ⟨if q k = true then f k else k, List.mem_map.mpr ⟨k, hk, rfl⟩, ?_, ?_⟩
      · split
        · rw [(hf k).2.1]
          exact hplayer
        · exact hplayer
      · split
        · rw [(hf k).2.2]
          exact hhash
        · exact hhash
  refine { h with keys := ?_, taken := fun tick => ?_ }
  · exact (hview _).trans ((congrArg _ h.keys).trans (hview _).symm)
  · exact (htaken db' tick).trans ((h.taken tick).trans (htaken db tick).symm)

/-- A drawn token can only collide with the player's own rows, which look alike, or with those
that `Taken` is about. -/
theorem mem_hashes_iff {t : Tables} {tick : ℕ} :
    env.hash ("aomk_" ++ env.token tick) ∈ t.apiKeys.map ApiKey.keyHash ↔
      Taken env p t tick ∨ env.hash ("aomk_" ++ env.token tick) ∈
        ((t.apiKeys.filter fun k => k.player == p).map unnumbered).map ApiKey.keyHash := by
  rw [List.map_map]
  constructor
  · intro hmem
    obtain ⟨k, hk, hhash⟩ := List.mem_map.mp hmem
    by_cases hplayer : k.player = p
    · exact Or.inr (List.mem_map.mpr ⟨k, List.mem_filter.mpr ⟨hk, by simpa using hplayer⟩, hhash⟩)
    · exact Or.inl ⟨k, hk, hplayer, hhash⟩
  · rintro (⟨k, hk, _, hhash⟩ | hmem)
    · exact List.mem_map.mpr ⟨k, hk, hhash⟩
    · obtain ⟨k, hk, hhash⟩ := List.mem_map.mp hmem
      exact List.mem_map.mpr ⟨k, (List.mem_filter.mp hk).1, hhash⟩

theorem taken_insert {t t' : Tables} {row : ApiKey} {tick : ℕ}
    (hrows : t'.apiKeys = t.apiKeys ++ [row]) (hrow : row.player = p) :
    Taken env p t' tick ↔ Taken env p t tick := by
  unfold Taken
  rw [hrows]
  constructor
  · rintro ⟨k, hk, hplayer, hhash⟩
    rcases List.mem_append.mp hk with hold | hnew
    · exact ⟨k, hold, hplayer, hhash⟩
    · rw [List.mem_singleton.mp hnew] at hplayer
      exact absurd hrow hplayer
  · rintro ⟨k, hk, hplayer, hhash⟩
    exact ⟨k, List.mem_append_left _ hk, hplayer, hhash⟩

/-- A new key has a number of its own in each, which nobody is shown. -/
theorem matching_insertApiKey (h : SameView env p db.toTables db'.toTables) (tick : ℕ)
    (keyPrefix : String) (now : ℤ) (a : α) (note : List Event) :
    Matching env p
      (do let db ← orRefused (db.insertApiKey p (env.hash ("aomk_" ++ env.token tick)) keyPrefix now)
          return (a, db, note))
      (do let db ← orRefused (db'.insertApiKey p (env.hash ("aomk_" ++ env.token tick)) keyPrefix now)
          return (a, db, note)) := by
  refine matching_insert a note ?_ fun d d' hd hd' => ?_
  · rw [Db.insertApiKey_accepts, Db.insertApiKey_accepts]
    refine and_congr (mem_users_iff h).symm (not_congr ?_)
    rw [@mem_hashes_iff env p db.toTables, @mem_hashes_iff env p db'.toTables, h.keys, h.taken]
  · have hrow : ∀ {d d' : Db}, d.insertApiKey p (env.hash ("aomk_" ++ env.token tick)) keyPrefix now
        = some d' → ∃ row : ApiKey, row.player = p ∧ d'.apiKeys = d.apiKeys ++ [row] := by
      intro d d' hsome
      rw [Db.insertApiKey_eq_some hsome]
      exact ⟨{ id := d.nextKeyId, player := p, keyHash := _, keyPrefix := _, createdAt := _ }, rfl, rfl⟩
    have htaken : ∀ t, Taken env p d'.toTables t ↔ Taken env p d.toTables t := by
      intro t
      obtain ⟨row, hplayer, hrows⟩ := hrow hd
      obtain ⟨row', hplayer', hrows'⟩ := hrow hd'
      rw [taken_insert hrows hplayer, taken_insert hrows' hplayer', h.taken]
    rw [Db.insertApiKey_eq_some hd, Db.insertApiKey_eq_some hd'] at htaken ⊢
    refine { h with keys := ?_, taken := htaken }
    rw [List.filter_append, List.filter_append, List.map_append, List.map_append, h.keys]
    simp [unnumbered]

theorem sameView_updateSetting (h : SameView env p db.toTables db'.toTables) (key value : String) :
    SameView env p (db.updateSetting key value).toTables (db'.updateSetting key value).toTables :=
  { h with settings := congrArg (updateRows _ _) h.settings }

end Statements

/-! The repository methods -/

theorem oblivious_getUser : Oblivious (Alike env p l l') (getUser env p) :=
  oblivious_query fun tick db db' h => by rw [h.user]

theorem oblivious_isRegistered : Oblivious (Alike env p l l') (isRegistered env p) :=
  Oblivious.bind oblivious_getUser fun _ => Oblivious.pure _

theorem oblivious_register : Oblivious (Alike env p l l') (register env p) :=
  oblivious_statement fun _ _ _ h => Matching.bind _ fun _ => matching_insertUser h _ _ _

theorem oblivious_unregisterCascade : Oblivious (Alike env p l l') (unregisterCascade env p) := by
  refine Oblivious.bind (oblivious_query fun _ db db' h => ?_) fun _ => ?_
  · unfold subscriptionsOf
    rw [h.subscriptions]
  · refine Oblivious.bind (oblivious_statement fun _ _ _ h => ?_) fun _ => Oblivious.pure _
    exact .ok () [] (sameView_eraseUser h)

theorem oblivious_getWatch (aoid : ℤ) : Oblivious (Alike env p l l') (getWatch env aoid) :=
  oblivious_query fun _ db db' h => by rw [h.watch]

theorem oblivious_upsertWatch (aoid : ℤ) (name : String) (ql : ℤ) (icon : Option ℤ)
    (autoTracked : Bool) :
    Oblivious (Alike env p l l') (upsertWatch env aoid name ql icon autoTracked) := by
  refine Oblivious.bind (oblivious_getWatch aoid) fun _ => ?_
  refine Oblivious.bind (oblivious_statement fun _ db db' h => ?_) fun _ => Oblivious.pure _
  refine Matching.bind _ fun _ => Matching.bind _ fun _ => Matching.bind _ fun _ => ?_
  rw [h.watch]
  cases lookup MarketWatch.aoid aoid db.watch with
  | none => exact matching_insertWatch h _ _ _
  | some r => exact .ok () [] (sameView_updateWatch h _ _ _)

theorem oblivious_countWatch (autoTracked : Option Bool) :
    Oblivious (Alike env p l l') (countWatch env autoTracked) :=
  oblivious_query fun _ db db' h => by rw [h.watch]

theorem oblivious_clearWatch : Oblivious (Alike env p l l') (clearWatch env) := by
  refine Oblivious.bind (oblivious_countWatch none) fun _ => ?_
  refine Oblivious.bind (oblivious_statement fun _ _ _ h => ?_) fun _ => Oblivious.pure _
  exact .ok () [] (sameView_deleteWatch h _)

theorem oblivious_listWatch (limit offset : ℤ) (autoTracked : Option Bool) :
    Oblivious (Alike env p l l') (listWatch env limit offset autoTracked) :=
  oblivious_query fun _ db db' h => by rw [h.watch]

theorem oblivious_getSubscription (aoid : ℤ) :
    Oblivious (Alike env p l l') (getSubscription env p aoid) :=
  oblivious_query fun _ db db' h => by rw [lookup_subscription h]

theorem oblivious_countSubscriptions : Oblivious (Alike env p l l') (countSubscriptions env p) :=
  oblivious_query fun _ db db' h => by
    unfold subscriptionsOf
    rw [h.subscriptions]

theorem oblivious_addSubscription (aoid : ℤ) :
    Oblivious (Alike env p l l') (addSubscription env p aoid) :=
  oblivious_statement fun _ _ _ h => matching_insertSubscription h _ _

theorem oblivious_deleteSubscription (aoid : ℤ) :
    Oblivious (Alike env p l l') (deleteSubscription env p aoid) := by
  refine oblivious_statement fun _ db db' h => Matching.bind _ fun _ => Matching.bind _ fun _ => ?_
  rw [any_subscription h]
  exact .ok _ [] (sameView_deleteSubscriptions h _)

theorem oblivious_deleteAllSubscriptions :
    Oblivious (Alike env p l l') (deleteAllSubscriptions env p) := by
  refine Oblivious.bind oblivious_countSubscriptions fun _ => ?_
  refine Oblivious.bind (oblivious_statement fun _ _ _ h => ?_) fun _ => Oblivious.pure _
  exact .ok () [] (sameView_deleteSubscriptions h _)

theorem oblivious_listSubscriptions : Oblivious (Alike env p l l') (listSubscriptions env p) :=
  oblivious_query fun _ db db' h => by
    unfold subscriptionsOf
    rw [h.subscriptions]

theorem oblivious_updateFilter (aoid : ℤ) (check : Except PyErr Unit)
    (f : MarketSubscription → MarketSubscription) (hf : ∀ r, (f r).key = r.key) :
    Oblivious (Alike env p l l') (MarketRepo.updateFilter env p aoid check f hf) :=
  oblivious_statement fun _ _ _ h => Matching.bind _ fun _ => Matching.bind _ fun _ =>
    Matching.bind _ fun _ => .ok () [] (sameView_updateSubscriptions h _ _ _)

theorem oblivious_logAction (action : String) (aoid : Option ℤ) :
    Oblivious (Alike env p l l') (MarketRepo.logAction env p action aoid) :=
  oblivious_statement fun _ _ _ h => Matching.bind _ fun _ => Matching.bind _ fun _ =>
    .ok () [] (sameView_insertAction h _)

theorem oblivious_userActionSummary : Oblivious (Alike env p l l') (userActionSummary env p) :=
  oblivious_query fun _ db db' h => by
    unfold actionsOf
    rw [h.actions]

theorem oblivious_userActionBreakdown : Oblivious (Alike env p l l') (userActionBreakdown env p) :=
  oblivious_query fun _ db db' h => by
    unfold actionsOf
    rw [h.actions]

end AoMarket.PlayerView
