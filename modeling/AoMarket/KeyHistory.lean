import AoMarket.HttpAccess

/-!
The keys of the players against the history of their issue. `LastIssued` says what
a key is for: it is the last one generated for its player and nothing ended it since.
The table keeps in step with it, one active row for each player at most.
-/

namespace AoMarket.KeyHistory

open Coroutine Relational Models Database Environment AuthService Writes ServiceWrites HttpAccess
open MarketRepo hiding register logAction

/-- What happened, with the token a generation returned, if it returned. -/
inductive KeyEvent where
  | generated (player : String) (token : Option String)
  | revoked (player : String)
  | authenticated (token : String)
  | registered (player : String)
  | unregistered (player : String)
deriving DecidableEq, Repr

/-- The events after which no earlier key of the player is valid. -/
def Ends (player : String) : KeyEvent → Prop
  | .generated p _ | .revoked p | .unregistered p => p = player
  | _ => False

/-- The latest event comes first. -/
def LastIssued (history : List KeyEvent) (player token : String) : Prop :=
  ∃ later earlier, history = later ++ .generated player (some token) :: earlier ∧
    ∀ e ∈ later, ¬ Ends player e

def current (player : String) : List KeyEvent → Option String
  | [] => none
  | .generated p token :: earlier => if p = player then token else current player earlier
  | .revoked p :: earlier => if p = player then none else current player earlier
  | .unregistered p :: earlier => if p = player then none else current player earlier
  | .authenticated _ :: earlier => current player earlier
  | .registered _ :: earlier => current player earlier

theorem current_of_not_ends {player : String} {e : KeyEvent} (h : ¬ Ends player e)
    (earlier : List KeyEvent) : current player (e :: earlier) = current player earlier := by
  cases e with
  | generated p token => exact if_neg h
  | revoked p => exact if_neg h
  | unregistered p => exact if_neg h
  | authenticated token => rfl
  | registered p => rfl

/-- An event that ends the player's keys decides alone. -/
theorem lastIssued_of_ends {player token : String} {e : KeyEvent} {earlier : List KeyEvent}
    (hends : Ends player e) :
    LastIssued (e :: earlier) player token ↔ e = .generated player (some token) := by
  constructor
  · rintro ⟨later, rest, hhistory, hlater⟩
    cases later with
    | nil => exact (List.cons.inj hhistory).1
    | cons e' later =>
      obtain ⟨rfl, _⟩ := List.cons.inj hhistory
      exact absurd hends (hlater e List.mem_cons_self)
  · intro h
    exact ⟨[], earlier, by rw [h]; rfl, by simp⟩

/-- An event that ends nothing leaves the token last issued. -/
theorem lastIssued_of_not_ends {player token : String} {e : KeyEvent} {earlier : List KeyEvent}
    (hends : ¬ Ends player e) :
    LastIssued (e :: earlier) player token ↔ LastIssued earlier player token := by
  constructor
  · rintro ⟨later, rest, hhistory, hlater⟩
    cases later with
    | nil =>
      obtain ⟨rfl, _⟩ := List.cons.inj hhistory
      exact absurd rfl hends
    | cons e' later =>
      obtain ⟨_, hrest⟩ := List.cons.inj hhistory
      exact ⟨later, rest, hrest, fun x hx => hlater x (List.mem_cons_of_mem e' hx)⟩
  · rintro ⟨later, rest, hhistory, hlater⟩
    exact ⟨e :: later, rest, by rw [hhistory]; rfl, List.forall_mem_cons.mpr ⟨hends, hlater⟩⟩

theorem current_eq_some {history : List KeyEvent} {player token : String} :
    current player history = some token ↔ LastIssued history player token := by
  induction history with
  | nil =>
    constructor
    · intro h
      cases h
    · rintro ⟨later, earlier, h, _⟩
      simp at h
  | cons e earlier ih =>
    by_cases hends : Ends player e
    · rw [lastIssued_of_ends hends]
      cases e with
      | generated p issued =>
        have hp : p = player := hends
        simp [current, hp]
      | revoked p | unregistered p =>
        have hp : p = player := hends
        simp [current, hp]
      | authenticated t | registered p => exact hends.elim
    · rw [current_of_not_ends hends, lastIssued_of_not_ends hends, ih]

/-! The active rows of a player -/

def heldBy (player : String) (k : ApiKey) : Bool := k.player == player && activeKey k

theorem heldBy_iff {player : String} {k : ApiKey} :
    heldBy player k = true ↔ k.player = player ∧ k.revokedAt = none := by
  simp [heldBy, activeKey]

def activeHashes (player : String) (keys : List ApiKey) : List String :=
  (keys.filter (heldBy player)).map ApiKey.keyHash

/-- An update that keeps players, hashes and revocations changes no player's valid hashes. -/
theorem activeHashes_update {keys : List ApiKey} (p : ApiKey → Bool) {f : ApiKey → ApiKey}
    (hf : ∀ k, (f k).player = k.player ∧ (f k).keyHash = k.keyHash ∧
      (f k).revokedAt = k.revokedAt) (player : String) :
    activeHashes player (updateRows p f keys) = activeHashes player keys := by
  induction keys with
  | nil => rfl
  | cons k rest ih =>
    have hsame : ∀ k' : ApiKey, k'.player = k.player → k'.keyHash = k.keyHash →
        k'.revokedAt = k.revokedAt →
        activeHashes player (k' :: updateRows p f rest) = activeHashes player (k :: rest) := by
      intro k' hplayer hhash hrevoked
      unfold activeHashes at ih ⊢
      by_cases hsel : heldBy player k = true
      · have hsel' : heldBy player k' = true := by
          rwa [heldBy_iff, hplayer, hrevoked, ← heldBy_iff]
        rw [List.filter_cons_of_pos hsel, List.filter_cons_of_pos hsel', List.map_cons,
          List.map_cons, hhash, ih]
      · have hsel' : ¬ heldBy player k' = true := by
          rwa [heldBy_iff, hplayer, hrevoked, ← heldBy_iff]
        rw [List.filter_cons_of_neg hsel, List.filter_cons_of_neg hsel', ih]
    show activeHashes player ((if p k then f k else k) :: updateRows p f rest) = _
    split
    · exact hsame (f k) (hf k).1 (hf k).2.1 (hf k).2.2
    · exact hsame k rfl rfl rfl

/-- Revoking a player's keys leaves none of them active, and the others as they are. -/
theorem activeHashes_revoke (keys : List ApiKey) (owner player : String) (now : ℤ) :
    activeHashes player (updateRows (heldBy owner) (fun k => { k with revokedAt := some now }) keys) =
      if owner = player then [] else activeHashes player keys := by
  unfold activeHashes
  by_cases howner : owner = player
  · subst howner
    rw [if_pos rfl, List.map_eq_nil_iff, List.filter_eq_nil_iff]
    intro k hk
    obtain ⟨k', _, rfl⟩ := List.mem_map.mp hk
    split
    · rw [heldBy_iff]
      simp
    · next h => exact h
  · rw [if_neg howner, filter_updateRows]
    · intro k _ hk
      have hplayer := (heldBy_iff.mp hk).1
      simp [heldBy, hplayer, howner]
    · intro k _ _
      simp [heldBy, activeKey]

theorem activeHashes_insert (keys : List ApiKey) {new : ApiKey} (hnew : new.revokedAt = none)
    (player : String) :
    activeHashes player (keys ++ [new]) =
      activeHashes player keys ++ if new.player = player then [new.keyHash] else [] := by
  unfold activeHashes
  rw [List.filter_append, List.map_append]
  by_cases h : new.player = player
  · simp [h, heldBy, activeKey, hnew]
  · simp [h, heldBy]

/-- A player's keys go with the user, and no others do. -/
theorem activeHashes_erase (db : Db) (owner player : String) :
    activeHashes player (eraseUser db owner).apiKeys =
      if owner = player then [] else activeHashes player db.apiKeys := by
  have hkeys : (eraseUser db owner).apiKeys = cascade ApiKey.player MarketUser.player
      (fun u => u.player == owner) db.users db.apiKeys := rfl
  unfold activeHashes
  rw [hkeys]
  by_cases howner : owner = player
  · subst howner
    rw [if_pos rfl, List.map_eq_nil_iff, List.filter_eq_nil_iff]
    intro k hk hsel
    obtain ⟨hmem, hkeep⟩ := mem_cascade.mp hk
    have hplayer := (heldBy_iff.mp hsel).1
    obtain ⟨u, hu, huser⟩ := List.mem_map.mp (db.sound.api_player k hmem)
    exact hkeep u hu (by simp [huser, hplayer]) huser
  · rw [if_neg howner, filter_cascade]
    intro k _ hk u _ hu heq
    have huser : u.player = owner := by simpa using hu
    exact howner (by rw [← huser, heq, (heldBy_iff.mp hk).1])

/-! The operations, with the server up -/

section Operations
variable {env : Env} {player : String} {w : World}

theorem run_isRegistered (hup : env.dbFault w.tick = none) (htext : text env player = .ok ()) :
    (isRegistered env player).run w =
      (.ok (lookup MarketUser.player player w.db.users).isSome, w.next) := by
  unfold isRegistered getUser
  rw [Coro.run_bind_ok (run_query_ok hup (by rw [htext]; rfl))]
  simp [World.next]

theorem run_isRegistered_refused (hup : env.dbFault w.tick = none) {e : PyErr}
    (htext : text env player = .error e) : (isRegistered env player).run w = (.error e, w.next) := by
  unfold isRegistered getUser
  rw [Coro.run_bind_error (run_query_error hup (by rw [htext]; rfl))]

def issueKey (env : Env) (player : String) : M String := do
  let _ ← revokeAllForPlayer env player
  let raw ← generateToken env
  create env player (env.hash raw) (tokenPrefix raw)
  return raw

theorem generateKey_eq : generateKey env player = (isRegistered env player >>= fun registered =>
    if !registered then MarketRepo.register env player >>= fun _ => issueKey env player
    else issueKey env player) := rfl

/-- The player's rows are revoked, and a new one holds the hash of the token returned. -/
def Issues (env : Env) (player : String) (w : World) (r : Except PyErr String × World) : Prop :=
  ∃ i new, w.tick ≤ i ∧ i < r.2.tick ∧ r.1 = .ok ("aomk_" ++ env.token i) ∧
    new.player = player ∧ new.keyHash = env.hash ("aomk_" ++ env.token i) ∧ new.revokedAt = none ∧
    ∃ now, r.2.db.apiKeys = updateRows (heldBy player)
      (fun k => { k with revokedAt := some now }) w.db.apiKeys ++ [new]

/-- The new key is the only valid one of its player. -/
theorem run_issueKey (hup : ∀ t, env.dbFault t = none) (htext : text env player = .ok ())
    (hplayer : player ∈ w.db.users.map MarketUser.player)
    (hfresh : ∀ i, w.tick ≤ i →
      env.hash ("aomk_" ++ env.token i) ∉ w.db.apiKeys.map ApiKey.keyHash) :
    Issues env player w ((issueKey env player).run w) := by
  unfold issueKey revokeAllForPlayer
  rw [Coro.run_bind_ok (run_statement_ok (hup _) (by rw [htext]; rfl))]
  have htoken : ∀ v : World, (generateToken env).run v =
      (.ok ("aomk_" ++ env.token v.tick), v.next) := by
    intro v
    simp [generateToken, external, World.next]
  rw [Coro.run_bind_ok (htoken _)]
  set revoked := w.db.updateApiKeys (fun k => k.player == player && activeKey k)
    (fun k => { k with revokedAt := some (env.clock w.tick) }) (fun _ => ⟨rfl, rfl, rfl⟩)
    with hrevoked
  set raw := "aomk_" ++ env.token (w.tick + 1) with hraw
  have hhashes : revoked.apiKeys.map ApiKey.keyHash = w.db.apiKeys.map ApiKey.keyHash :=
    map_updateRows _ fun _ => rfl
  have haccept : player ∈ revoked.users.map MarketUser.player ∧
      env.hash raw ∉ revoked.apiKeys.map ApiKey.keyHash := by
    rw [hhashes]
    exact ⟨hplayer, hfresh _ (by omega)⟩
  obtain ⟨db, hdb⟩ : ∃ db, revoked.insertApiKey player (env.hash raw) (tokenPrefix raw)
      (env.clock (w.tick + 1 + 1)) = some db := by
    unfold Db.insertApiKey
    rw [dif_pos haccept]
    exact ⟨_, rfl⟩
  unfold create
  rw [Coro.run_bind_ok (run_statement_ok (hup _) (by
    simp only [World.next]
    rw [hdb]
    rfl))]
  refine ⟨w.tick + 1,
    { id := revoked.nextKeyId, player := player, keyHash := env.hash raw,
      keyPrefix := tokenPrefix raw, createdAt := env.clock (w.tick + 1 + 1) },
    by omega, by simp [World.next], rfl, rfl, rfl, rfl, env.clock w.tick, ?_⟩
  rw [Coro.run_pure]
  show db.apiKeys = _
  rw [Db.insertApiKey_eq_some hdb]
  rfl

theorem run_generateKey (hup : ∀ t, env.dbFault t = none) (htext : text env player = .ok ())
    (hfresh : ∀ i, w.tick ≤ i →
      env.hash ("aomk_" ++ env.token i) ∉ w.db.apiKeys.map ApiKey.keyHash) :
    Issues env player w ((generateKey env player).run w) := by
  rw [generateKey_eq, Coro.run_bind_ok (run_isRegistered (hup _) htext)]
  cases hrow : lookup MarketUser.player player w.db.users with
  | some user =>
    obtain ⟨hmem, huser⟩ := (lookup_eq_some w.db.sound.user_key).mp hrow
    have hplayer : player ∈ w.next.db.users.map MarketUser.player :=
      List.mem_map.mpr ⟨user, hmem, huser⟩
    obtain ⟨i, new, hi, hrest⟩ := run_issueKey hup htext hplayer
      fun j hj => hfresh j (by simp only [World.next] at hj; omega)
    exact ⟨i, new, by simp only [World.next] at hi; omega, hrest⟩
  | none =>
    have hnew : player ∉ w.db.users.map MarketUser.player := lookup_eq_none.mp hrow
    obtain ⟨db, hdb⟩ : ∃ db, w.db.insertUser { player := player, isAdmin := false } = some db := by
      unfold Db.insertUser
      rw [dif_pos hnew]
      exact ⟨_, rfl⟩
    have htables := Db.insertUser_eq_some hdb
    have hregister : (MarketRepo.register env player).run w.next =
        (.ok (), { db := db, tick := w.tick + 2, log := w.log }) := by
      unfold MarketRepo.register
      rw [run_statement_ok (hup _) (by
        simp only [World.next]
        rw [htext, hdb]
        rfl)]
      simp [World.next]
    show Issues env player w
      ((MarketRepo.register env player >>= fun _ => issueKey env player).run w.next)
    rw [Coro.run_bind_ok hregister]
    have hkeys : db.apiKeys = w.db.apiKeys := by rw [htables]
    have hplayer : player ∈ db.users.map MarketUser.player := by
      rw [htables]
      simp
    obtain ⟨i, new, hi, hlt, hok, hrow, hhash, hactive, now, happend⟩ := run_issueKey
      (w := { db := db, tick := w.tick + 2, log := w.log }) hup htext hplayer
      fun j hj => by
        rw [hkeys]
        exact hfresh j (by simp only at hj; omega)
    refine ⟨i, new, ?_, hlt, hok, hrow, hhash, hactive, now, ?_⟩
    · simp only at hi
      omega
    · rw [happend]
      simp only [hkeys]

theorem run_generateKey_refused (hup : ∀ t, env.dbFault t = none) {e : PyErr}
    (htext : text env player = .error e) :
    (generateKey env player).run w = (.error e, w.next) := by
  rw [generateKey_eq, Coro.run_bind_error (run_isRegistered_refused (hup _) htext)]

theorem run_revokeKeys (hup : ∀ t, env.dbFault t = none) (htext : text env player = .ok ()) :
    ∃ now, ((revokeKeys env player).run w).2.db.apiKeys = updateRows (heldBy player)
      (fun k => { k with revokedAt := some now }) w.db.apiKeys := by
  unfold revokeKeys revokeAllForPlayer
  rw [run_statement_ok (hup _) (by rw [htext]; rfl)]
  exact ⟨env.clock w.tick, rfl⟩

theorem run_revokeKeys_refused (hup : ∀ t, env.dbFault t = none) {e : PyErr}
    (htext : text env player = .error e) : ((revokeKeys env player).run w).2.db = w.db := by
  unfold revokeKeys revokeAllForPlayer
  rw [run_statement_error (hup _) (by rw [htext]; rfl)]
  rfl

/-- The subscriptions are counted first; the cascade takes the rows in one commit. -/
theorem run_unregisterCascade (hup : ∀ t, w.tick ≤ t → env.dbFault t = none)
    (hname : text env player = .ok ()) :
    (unregisterCascade env player).run w =
      (.ok (subscriptionsOf w.db player).length,
        { db := eraseUser w.db player, tick := w.tick + 2, log := w.log }) := by
  unfold unregisterCascade
  rw [Coro.run_bind_ok (run_query_ok (hup _ (le_refl _)) (by rw [hname]; rfl)),
    Coro.run_bind_ok (run_statement_ok (hup _ (Nat.le_succ _)) rfl)]
  simp [World.next]

/-- Unregistering erases a registered player and does nothing to another name. -/
theorem run_unregister (hup : ∀ t, env.dbFault t = none) :
    ((MarketService.unregister env player).run w).2.db = eraseUser w.db player ∨
      ((MarketService.unregister env player).run w).2.db = w.db ∧
        (text env player ≠ .ok () ∨ player ∉ w.db.users.map MarketUser.player) := by
  unfold MarketService.unregister
  cases htext : text env player with
  | error e =>
    rw [Coro.run_bind_error (run_isRegistered_refused (hup _) htext)]
    exact Or.inr ⟨rfl, Or.inl (by simp)⟩
  | ok u =>
    rw [Coro.run_bind_ok (run_isRegistered (hup _) htext)]
    cases hrow : lookup MarketUser.player player w.db.users with
    | none => exact Or.inr ⟨rfl, Or.inr (lookup_eq_none.mp hrow)⟩
    | some user =>
      left
      simp only [Option.isSome_some, Bool.not_true, Bool.false_eq_true, if_false]
      rw [Coro.run_bind_ok (run_unregisterCascade (fun t _ => hup t) htext)]
      rw [run_bind_db fun _ => Coro.Frames.pure _, (keeps_announce _ _ _).db_eq]
      rfl

end Operations

/-! The table and the history -/

structure KeysMatch (env : Env) (history : List KeyEvent) (w : World) : Prop where
  active : ∀ p, activeHashes p w.db.apiKeys = (current p history).toList.map env.hash
  issued : ∀ k ∈ w.db.apiKeys, ∃ i < w.tick, k.keyHash = env.hash ("aomk_" ++ env.token i)
  storable : ∀ k ∈ w.db.apiKeys, text env k.player = .ok ()

section Matching
variable {env : Env} {history history' : List KeyEvent} {w w' : World}

/-- Only rows that were there: their players and hashes are as before. -/
def OldRows (keys keys' : List ApiKey) : Prop :=
  ∀ k' ∈ keys', ∃ k ∈ keys, k'.player = k.player ∧ k'.keyHash = k.keyHash

theorem oldRows_of_eq {keys keys' : List ApiKey} (h : keys' = keys) : OldRows keys keys' := by
  intro k hk
  rw [h] at hk
  exact ⟨k, hk, rfl, rfl⟩

theorem oldRows_update (keys : List ApiKey) (p : ApiKey → Bool) {f : ApiKey → ApiKey}
    (hf : ∀ k, (f k).player = k.player ∧ (f k).keyHash = k.keyHash) :
    OldRows keys (updateRows p f keys) := by
  intro k' hk'
  obtain ⟨k, hk, rfl⟩ := List.mem_map.mp hk'
  refine ⟨k, hk, ?_⟩
  split
  · exact hf k
  · exact ⟨rfl, rfl⟩

/-- The invariant goes over to a world of old rows whose valid hashes are those of the
new history. -/
theorem KeysMatch.of_oldRows (h : KeysMatch env history w)
    (hactive : ∀ p, activeHashes p w'.db.apiKeys = (current p history').toList.map env.hash)
    (hold : OldRows w.db.apiKeys w'.db.apiKeys) (htick : w.tick ≤ w'.tick) :
    KeysMatch env history' w' where
  active := hactive
  issued k' hk' := by
    obtain ⟨k, hk, _, hhash⟩ := hold k' hk'
    obtain ⟨i, hi, hissued⟩ := h.issued k hk
    exact ⟨i, by omega, hhash.trans hissued⟩
  storable k' hk' := by
    obtain ⟨k, hk, hplayer, _⟩ := hold k' hk'
    rw [hplayer]
    exact h.storable k hk

/-- A name the server cannot store, or no user has, has no keys. -/
theorem KeysMatch.current_none (h : KeysMatch env history w) {player : String}
    (hplayer : text env player ≠ .ok () ∨ player ∉ w.db.users.map MarketUser.player) :
    current player history = none := by
  have hnone : activeHashes player w.db.apiKeys = [] := by
    unfold activeHashes
    rw [List.map_eq_nil_iff, List.filter_eq_nil_iff]
    intro k hk hheld
    have hk_player := (heldBy_iff.mp hheld).1
    rcases hplayer with htext | huser
    · exact htext (hk_player ▸ h.storable k hk)
    · exact huser (hk_player ▸ w.db.sound.api_player k hk)
  have hlist := h.active player
  rw [hnone] at hlist
  cases hcurrent : current player history with
  | none => rfl
  | some t =>
    rw [hcurrent] at hlist
    simp at hlist

/-- The tokens still to be drawn are not among the hashes of the table. -/
theorem KeysMatch.fresh (h : KeysMatch env history w) (htokens : Function.Injective env.token)
    (hhash : Function.Injective env.hash) (i : ℕ) (hi : w.tick ≤ i) :
    env.hash ("aomk_" ++ env.token i) ∉ w.db.apiKeys.map ApiKey.keyHash := by
  intro hmem
  obtain ⟨k, hk, heq⟩ := List.mem_map.mp hmem
  obtain ⟨j, hj, hissued⟩ := h.issued k hk
  have htext : "aomk_" ++ env.token i = "aomk_" ++ env.token j :=
    hhash (heq.symm.trans hissued)
  have hsame : env.token i = env.token j := by
    have hlist := congrArg String.toList htext
    rw [String.toList_append, String.toList_append] at hlist
    exact String.toList_inj.mp (List.append_cancel_left hlist)
  have := htokens hsame
  omega

/-- After a generation the token it returned is the player's, and no earlier one. -/
theorem KeysMatch.generate (h : KeysMatch env history w) (hup : ∀ t, env.dbFault t = none)
    (htokens : Function.Injective env.token) (hhash : Function.Injective env.hash)
    (player : String) :
    KeysMatch env (.generated player ((generateKey env player).run w).1.toOption :: history)
      ((generateKey env player).run w).2 := by
  cases htext : text env player with
  | error e =>
    rw [run_generateKey_refused hup htext]
    have htick : w.tick ≤ w.next.tick := Nat.le_succ _
    refine @KeysMatch.of_oldRows env history _ w w.next h ?_ (oldRows_of_eq rfl) htick
    intro p
    show activeHashes p w.db.apiKeys = _
    rw [h.active p]
    by_cases hp : player = p
    · subst hp
      rw [h.current_none (Or.inl (by rw [htext]; simp))]
      simp [current, Except.toOption]
    · simp only [current, if_neg hp]
  | ok u =>
    obtain ⟨i, new, hi, hlt, hok, hplayer, hkey, hrevoked, now, hkeys⟩ :=
      run_generateKey hup htext (h.fresh htokens hhash)
    have hold : OldRows w.db.apiKeys (updateRows (heldBy player)
        (fun k => { k with revokedAt := some now }) w.db.apiKeys) :=
      oldRows_update _ _ fun _ => ⟨rfl, rfl⟩
    refine ⟨?_, ?_, ?_⟩
    · intro p
      rw [hkeys, activeHashes_insert _ hrevoked, activeHashes_revoke, hplayer, hok, hkey]
      by_cases hp : player = p
      · simp [hp, current, Except.toOption]
      · rw [if_neg hp, if_neg hp, List.append_nil, h.active p]
        simp only [current, if_neg hp]
    · intro k hk
      rw [hkeys] at hk
      rcases List.mem_append.mp hk with hk | hk
      · obtain ⟨k', hk', _, hhash'⟩ := hold k hk
        obtain ⟨j, hj, hissued⟩ := h.issued k' hk'
        exact ⟨j, by omega, hhash'.trans hissued⟩
      · rw [List.mem_singleton.mp hk]
        exact ⟨i, hlt, hkey⟩
    · intro k hk
      rw [hkeys] at hk
      rcases List.mem_append.mp hk with hk | hk
      · obtain ⟨k', hk', hplayer', _⟩ := hold k hk
        rw [hplayer']
        exact h.storable k' hk'
      · rw [List.mem_singleton.mp hk, hplayer]
        exact htext

/-- After a revocation no token of the player is valid. -/
theorem KeysMatch.revoke (h : KeysMatch env history w) (hup : ∀ t, env.dbFault t = none)
    (player : String) :
    KeysMatch env (.revoked player :: history) ((revokeKeys env player).run w).2 := by
  have htick : w.tick ≤ ((revokeKeys env player).run w).2.tick :=
    Keeps.run_tick_le (keeps_revokeAllForPlayer trivial :
      Keeps (fun _ => True) (revokeAllForPlayer env player)) w
  cases htext : text env player with
  | error e =>
    have hkeys : ((revokeKeys env player).run w).2.db.apiKeys = w.db.apiKeys := by
      rw [run_revokeKeys_refused hup htext]
    apply h.of_oldRows ?_ (oldRows_of_eq hkeys) htick
    intro p
    rw [hkeys, h.active p]
    by_cases hp : player = p
    · subst hp
      rw [h.current_none (Or.inl (by rw [htext]; simp))]
      simp [current]
    · simp only [current, if_neg hp]
  | ok u =>
    obtain ⟨now, hkeys⟩ := run_revokeKeys (w := w) hup htext
    apply h.of_oldRows ?_ ?_ htick
    · intro p
      rw [hkeys, activeHashes_revoke]
      by_cases hp : player = p
      · simp [hp, current]
      · rw [if_neg hp, h.active p]
        simp only [current, if_neg hp]
    · rw [hkeys]
      exact oldRows_update _ _ fun _ => ⟨rfl, rfl⟩

/-- An unregistration takes the keys with the player. -/
theorem KeysMatch.unregister (h : KeysMatch env history w) (hup : ∀ t, env.dbFault t = none)
    (player : String) : KeysMatch env (.unregistered player :: history)
      ((MarketService.unregister env player).run w).2 := by
  have htick : w.tick ≤ ((MarketService.unregister env player).run w).2.tick :=
    Keeps.run_tick_le (keeps_unregister trivial :
      Keeps (fun _ => True) (MarketService.unregister env player)) w
  rcases @run_unregister env player w hup with herased | ⟨hsame, hnone⟩
  · apply h.of_oldRows ?_ ?_ htick
    · intro p
      rw [herased, activeHashes_erase]
      by_cases hp : player = p
      · simp [hp, current]
      · rw [if_neg hp, h.active p]
        simp only [current, if_neg hp]
    · rw [herased]
      intro k hk
      exact ⟨k, (cascade_sublist _ _ _ _ _).subset hk, rfl, rfl⟩
  · apply h.of_oldRows ?_ (oldRows_of_eq (by rw [hsame])) htick
    intro p
    rw [hsame, h.active p]
    by_cases hp : player = p
    · subst hp
      rw [h.current_none hnone]
      simp [current]
    · simp only [current, if_neg hp]

/-- Reading a key changes when it was last used, which no key's validity depends on. -/
theorem KeysMatch.authenticate (h : KeysMatch env history w) (token : String) :
    KeysMatch env (.authenticated token :: history)
      ((AuthService.authenticate env token).run w).2 := by
  have hkeeps : Keeps (fun op => op = .touchKey) (AuthService.authenticate env token) :=
    keeps_authenticate (A := fun op => op = .touchKey) rfl token
  have htouch : ∀ op db db' note, op = Write.touchKey → Effect op db db' note →
      ∃ p now, db'.apiKeys = updateRows p (fun k => { k with lastUsedAt := some now }) db.apiKeys := by
    rintro op db db' note hop heffect
    cases heffect with
    | touchKey _ keyId now => exact ⟨_, now, rfl⟩
    | _ => cases hop
  apply h.of_oldRows ?_ ?_ (hkeeps.run_tick_le w)
  · intro p
    have hsame := hkeeps.run_eq (f := fun db => activeHashes p db.apiKeys)
      (fun op db db' note hop heffect => by
        obtain ⟨q, now, hkeys⟩ := htouch op db db' note hop heffect
        rw [hkeys]
        apply activeHashes_update
        exact fun _ => ⟨rfl, rfl, rfl⟩) w
    exact hsame.trans (h.active p)
  · apply hkeeps.run_rel (R := fun db db' => OldRows db.apiKeys db'.apiKeys)
    · exact fun _ => oldRows_of_eq rfl
    · intro a b c hab hbc k hk
      obtain ⟨k', hk', hplayer, hhash⟩ := hbc k hk
      obtain ⟨k'', hk'', hplayer', hhash'⟩ := hab k' hk'
      exact ⟨k'', hk'', hplayer.trans hplayer', hhash.trans hhash'⟩
    · intro op db db' note hop heffect
      obtain ⟨q, now, hkeys⟩ := htouch op db db' note hop heffect
      rw [hkeys]
      exact oldRows_update _ q fun _ => ⟨rfl, rfl⟩

/-- A registration gives nobody a key. -/
theorem KeysMatch.register (h : KeysMatch env history w) (player : String) :
    KeysMatch env (.registered player :: history)
      ((MarketService.register env player).run w).2 := by
  have hkeeps : Keeps (fun op => op = .insertUser player ∨ op = .insertAction)
      (MarketService.register env player) :=
    keeps_register (A := fun op => op = .insertUser player ∨ op = .insertAction)
      (Or.inl rfl) (Or.inr rfl)
  have hkeys := hkeeps.run_eq (f := fun db => db.apiKeys)
    (fun op db db' note hop heffect => by
      cases heffect with
      | insertUser q h => rw [Db.insertUser_eq_some h]
      | insertAction _ row => rfl
      | _ => rcases hop with hop | hop <;> cases hop) w
  apply h.of_oldRows ?_ (oldRows_of_eq hkeys) (hkeeps.run_tick_le w)
  intro p
  rw [hkeys]
  exact h.active p

theorem run_isAdminPlayer (hup : ∀ t, env.dbFault t = none) {player : String}
    (hstorable : text env player = .ok ()) (w : World) :
    ∃ b w', (isAdminPlayer env player).run w = (.ok b, w') := by
  unfold isAdminPlayer
  split
  · exact ⟨true, w, rfl⟩
  · rw [getUser, Coro.run_bind_ok (run_query_ok (hup _) (by rw [hstorable]; rfl))]
    cases lookup MarketUser.player player w.db.users with
    | none => exact ⟨_, _, rfl⟩
    | some user => exact ⟨_, _, rfl⟩

/-- Who a token belongs to, as the service reads it from the table. -/
theorem run_authenticate (h : KeysMatch env history w) (hup : ∀ t, env.dbFault t = none)
    (token player : String) :
    (∃ b w', (AuthService.authenticate env token).run w =
        (.ok (some { player := player, isAdmin := b }), w')) ↔
      env.hash token ∈ activeHashes player w.db.apiKeys := by
  have hkeyed := w.db.sound.hash_key.sublist
    (List.filter_sublist : (w.db.apiKeys.filter activeKey).Sublist w.db.apiKeys)
  have hheld : env.hash token ∈ activeHashes player w.db.apiKeys ↔
      ∃ k, lookup ApiKey.keyHash (env.hash token) (w.db.apiKeys.filter activeKey) = some k ∧
        k.player = player := by
    simp only [lookup_eq_some hkeyed, activeHashes, List.mem_map, List.mem_filter, heldBy_iff]
    constructor
    · rintro ⟨k, ⟨hk, hplayer, hactive⟩, hhash⟩
      exact ⟨k, ⟨⟨hk, by simp [activeKey, hactive]⟩, hhash⟩, hplayer⟩
    · rintro ⟨k, ⟨⟨hk, hactive⟩, hhash⟩, hplayer⟩
      exact ⟨k, ⟨hk, hplayer, by simpa [activeKey] using hactive⟩, hhash⟩
  rw [hheld]
  unfold AuthService.authenticate getByHash
  rw [Coro.run_bind_ok (run_query_ok (hup _) rfl)]
  cases hrow : lookup ApiKey.keyHash (env.hash token) (w.db.apiKeys.filter activeKey) with
  | none =>
    constructor
    · rintro ⟨b, w', hrun⟩
      cases hrun
    · rintro ⟨k, hk, _⟩
      cases hk
  | some k =>
    have hmem := (List.mem_filter.mp (List.mem_of_find?_eq_some hrow)).1
    unfold touchLastUsed
    dsimp only
    rw [Coro.run_bind_ok (run_statement_ok (hup _) rfl)]
    obtain ⟨b, v', hb⟩ := run_isAdminPlayer hup (h.storable k hmem) _
    rw [Coro.run_bind_ok hb]
    constructor
    · rintro ⟨b', w', hrun⟩
      cases hrun
      exact ⟨k, rfl, rfl⟩
    · rintro ⟨k', hk', hplayer⟩
      cases hk'
      exact ⟨b, v', by rw [Coro.run_pure, hplayer]⟩

end Matching

/-! Runs -/

/-- The states and histories of the operations on keys and players, from a table without
keys. In between anything may happen that leaves the keys alone. -/
inductive KeyRun (env : Env) : List KeyEvent → World → Prop
  | start {w : World} (hempty : w.db.apiKeys = []) : KeyRun env [] w
  | generate {history : List KeyEvent} {w : World} (h : KeyRun env history w) (player : String) :
      KeyRun env (.generated player ((generateKey env player).run w).1.toOption :: history)
        ((generateKey env player).run w).2
  | revoke {history : List KeyEvent} {w : World} (h : KeyRun env history w) (player : String) :
      KeyRun env (.revoked player :: history) ((revokeKeys env player).run w).2
  | authenticate {history : List KeyEvent} {w : World} (h : KeyRun env history w)
      (token : String) :
      KeyRun env (.authenticated token :: history) ((AuthService.authenticate env token).run w).2
  | register {history : List KeyEvent} {w : World} (h : KeyRun env history w) (player : String) :
      KeyRun env (.registered player :: history) ((MarketService.register env player).run w).2
  | unregister {history : List KeyEvent} {w : World} (h : KeyRun env history w) (player : String) :
      KeyRun env (.unregistered player :: history) ((MarketService.unregister env player).run w).2
  | elsewhere {history : List KeyEvent} {w w' : World} (h : KeyRun env history w)
      (hkeys : w'.db.apiKeys = w.db.apiKeys) (htick : w.tick ≤ w'.tick) : KeyRun env history w'

/-- The table of keys matches the history in every state of every run, by induction over
the run. -/
theorem KeyRun.keysMatch {env : Env} {history : List KeyEvent} {w : World}
    (hup : ∀ t, env.dbFault t = none) (htokens : Function.Injective env.token)
    (hhash : Function.Injective env.hash) (h : KeyRun env history w) :
    KeysMatch env history w := by
  induction h with
  | start hempty => exact ⟨by simp [hempty, activeHashes, current], by simp [hempty], by simp [hempty]⟩
  | generate h player ih => exact ih.generate hup htokens hhash player
  | revoke h player ih => exact ih.revoke hup player
  | authenticate h token ih => exact ih.authenticate token
  | register h player ih => exact ih.register player
  | unregister h player ih => exact ih.unregister hup player
  | elsewhere h hkeys htick ih =>
    apply ih.of_oldRows ?_ (oldRows_of_eq hkeys) htick
    intro p
    rw [hkeys]
    exact ih.active p

/-- A token authenticates a player exactly while it is the last one issued to that player and
nothing ended it; no player has two active keys; and the principal is an admin exactly when
the player is the owner or flagged as one now. -/
theorem key_valid_while_latest {env : Env} {history : List KeyEvent} {w : World}
    (hup : ∀ t, env.dbFault t = none) (htokens : Function.Injective env.token)
    (hhash : Function.Injective env.hash) (h : KeyRun env history w) :
    (∀ token player, (∃ b w', (AuthService.authenticate env token).run w =
        (.ok (some { player := player, isAdmin := b }), w')) ↔
      LastIssued history player token) ∧
    (∀ player, (w.db.apiKeys.filter (heldBy player)).length ≤ 1) ∧
    ∀ token player b w', (AuthService.authenticate env token).run w =
        (.ok (some { player := player, isAdmin := b }), w') →
      (b = true ↔ IsAdmin env w.db player) := by
  have hmatch := h.keysMatch hup htokens hhash
  refine ⟨?_, ?_, ?_⟩
  · intro token player
    rw [run_authenticate hmatch hup, ← current_eq_some, hmatch.active player]
    cases current player history with
    | none => simp
    | some t =>
      simp only [Option.toList_some, List.map_cons, List.map_nil, List.mem_singleton,
        Option.some.injEq]
      constructor
      · exact fun heq => (hhash heq).symm
      · exact fun heq => by rw [heq]
  · intro player
    have hlength := congrArg List.length (hmatch.active player)
    rw [activeHashes, List.length_map, List.length_map] at hlength
    rw [hlength]
    cases current player history with
    | none => simp
    | some t => simp
  · intro token player b w' hrun
    have hprincipal := (@authenticate_cases env token w).2.2
      { player := player, isAdmin := b } (by rw [hrun])
    exact hprincipal.2

/-- Tokens are the numbers of the calls that draw them, and a token is its own hash. -/
def numbered : Env := { Env.calm with token := fun t => toString t }

def firstKey : World := ((generateKey numbered "Tara").run { db := .empty }).2

def secondKey : World := ((generateKey numbered "Tara").run firstKey).2

def twoKeys : List KeyEvent :=
  [.generated "Tara" (some "aomk_7"), .generated "Tara" (some "aomk_3")]

theorem twoKeys_run : KeyRun numbered twoKeys secondKey :=
  .generate (.generate (.start (w := { db := .empty }) rfl) "Tara") "Tara"

theorem second_key_valid :
    (∀ token player, (∃ b w', (AuthService.authenticate numbered token).run secondKey =
        (.ok (some { player := player, isAdmin := b }), w')) ↔
      LastIssued twoKeys player token) ∧
    (∀ player, (secondKey.db.apiKeys.filter (heldBy player)).length ≤ 1) ∧
    ∀ token player b w', (AuthService.authenticate numbered token).run secondKey =
        (.ok (some { player := player, isAdmin := b }), w') →
      (b = true ↔ IsAdmin numbered secondKey.db player) :=
  key_valid_while_latest (fun _ => rfl) (fun _ _ h => PyText.toString_nat_injective h)
    (fun _ _ h => h) twoKeys_run

end AoMarket.KeyHistory
