import AoMarket.Concurrency
import AoMarket.Tracing

/-!
On whose authority a request acts. Whatever runs beside it, a request to a route with a key
dependency does nothing but stamp the use of a key, until it has itself read that the header
carries a key in force and whose, and that this player may pass.
-/

namespace AoMarket.Authority

open Coroutine Interleaving Reliance Recording Tracing Relational Models Database Environment
  AuthService HttpRoutes HttpAccess HttpWrites Concurrency

def Stamped (db db' : Db) : Prop :=
  db' = db ∨ ∃ keyId now, db' = db.updateApiKeys (fun k => k.id == keyId)
    (fun k => { k with lastUsedAt := some now }) fun _ => ⟨rfl, rfl, rfl⟩

structure Idle (w w' : World) : Prop where
  log : w'.log = w.log
  stamped : Stamped w.db w'.db

/-- In one turn the key was in force, and in one its player was an admin or the one the route
is about. -/
def Authorised (env : Env) (turn : World → Prop) (xApiKey : Option String) (guard : Guard) : Prop :=
  ∃ keyed p, turn keyed ∧ keyOwner env keyed.db xApiKey = some p ∧
    (guard = .player p ∨ ∃ vouched, turn vouched ∧ IsAdmin env vouched.db p)

variable {ι : Type} {i : ι} {env : Env} {xApiKey : Option String} {guard : Guard}

theorem Authorised.mono {turn turn' : World → Prop} (hmore : ∀ w, turn w → turn' w)
    (h : Authorised env turn xApiKey guard) : Authorised env turn' xApiKey guard := by
  obtain ⟨keyed, p, hkeyed, howner, hallowed⟩ := h
  refine ⟨keyed, p, hmore _ hkeyed, howner, hallowed.imp_right fun hadmin => ?_⟩
  obtain ⟨vouched, hvouched, hadmin⟩ := hadmin
  exact ⟨vouched, hmore _ hvouched, hadmin⟩

theorem Idle.refl (w : World) : Idle w w := ⟨rfl, Or.inl rfl⟩

def Ticks (w w' : World) : Prop := w'.tick = w.tick + 1 ∧ Idle w w'

theorem Ticks.next (w : World) : Ticks w w.next := ⟨rfl, rfl, Or.inl rfl⟩

theorem ticks_touchLastUsed (keyId : ℕ) : (touchLastUsed env keyId).Frames Ticks := by
  refine frames_statement Ticks.next fun w a db note h => ?_
  cases h
  exact ⟨rfl, List.append_nil _, Or.inr ⟨keyId, env.clock w.tick, rfl⟩⟩

theorem Ticks.steps {A : Writes.Write → Prop} {w w' : World} (h : Ticks w w')
    (hA : A .touchKey) : Writes.Steps A w w' := by
  obtain ⟨htick, hlog, hstamped⟩ := h
  refine ⟨htick, [], by rw [hlog, List.append_nil], ?_⟩
  rcases hstamped with hsame | ⟨keyId, now, hstamp⟩
  · exact Or.inl ⟨hsame, Writes.Silent.nil⟩
  · refine Or.inr ⟨.touchKey, hA, ?_⟩
    rw [hstamp]
    exact .touchKey _ keyId now

/-! The key dependencies -/

section Guards
variable {I : Recorded ι World → Prop} {S : World → World → Prop} [Accountable I S]
  {t : Recorded ι World} (hidle : ∀ w w', Ticks w w' → S w w')
include hidle

/-- The principal is the owner of the token's key, and an admin if it says so. -/
def Known (env : Env) (turn : World → Prop) (raw : String) (principal : ApiKeyPrincipal) : Prop :=
  ∃ keyed, turn keyed ∧ tokenOwner env keyed.db raw = some principal.player ∧
    (principal.isAdmin = true → ∃ vouched, turn vouched ∧ IsAdmin env vouched.db principal.player)

/-- What a query without a note answers, it answers about a turn of its coroutine. -/
theorem accounts_read {α : Type} (ht : I t) {call : Call} {f : ℕ → Db → Except PyErr α} :
    Accounts I i (query env call f) t fun a u =>
      ∃ w : World, u.Turn i w ∧ f w.tick w.db = .ok a :=
  accounts_query (fun _ => hidle _ _ ⟨rfl, List.append_nil _, Or.inl rfl⟩) ht
    fun w _ _ _ hturn _ h => ⟨w, hturn, h⟩

/-- The owner's character is an admin without a query. -/
theorem accounts_isAdminPlayer (ht : I t) (player : String) :
    Accounts I i (isAdminPlayer env player) t fun b u =>
      b = true → (∀ db, IsAdmin env db player) ∨
        ∃ vouched, u.Turn i vouched ∧ IsAdmin env vouched.db player := by
  unfold isAdminPlayer
  by_cases howner : env.ownerCharacter ≠ "" ∧ player = env.ownerCharacter
  · rw [if_pos howner]
    exact Accounts.pure ht fun _ => Or.inl fun _ => Or.inl howner
  · rw [if_neg howner]
    refine Accounts.bind ht (accounts_read hidle ht) fun user u hu _ hread => ?_
    obtain ⟨vouched, hturn, hread⟩ := hread
    obtain ⟨_, _, hread⟩ := except_bind_eq_ok.mp hread
    cases hread
    cases hrow : lookup MarketUser.player player vouched.db.users with
    | none => exact Accounts.pure hu fun hfalse => absurd hfalse (by simp)
    | some row =>
      obtain ⟨hmem, hplayer⟩ := (lookup_eq_some vouched.db.sound.user_key).mp hrow
      exact Accounts.pure hu fun hadmin =>
        Or.inr ⟨vouched, hturn, Or.inr ⟨row, hmem, hplayer, hadmin⟩⟩

/-- A principal that authenticate returns is known from what this task has read. -/
theorem accounts_authenticate (ht : I t) (raw : String) :
    Accounts I i (AuthService.authenticate env raw) t fun r u =>
      ∀ principal, r = some principal → Known env (u.Turn i) raw principal := by
  unfold AuthService.authenticate
  refine Accounts.bind ht (accounts_read hidle ht) fun key u hu _ hread => ?_
  obtain ⟨keyed, hturn, hread⟩ := hread
  cases key with
  | none => exact Accounts.pure hu fun principal h => absurd h (by simp)
  | some k =>
    have howner : tokenOwner env keyed.db raw = some k.player := by
      unfold tokenOwner
      rw [Except.ok.inj hread]
      rfl
    have htouch := Coro.Frames.mono (@ticks_touchLastUsed env k.id) hidle
    refine Accounts.bind hu (accounts_quiet htouch hu) fun _ v hv hlater _ => ?_
    refine Accounts.bind hv (accounts_isAdminPlayer hidle hv k.player) ?_
    intro b x hx hlater' hadmin
    have hkeyed := hlater'.turn i _ (hlater.turn i _ hturn)
    refine Accounts.pure hx fun principal h => ?_
    cases h
    exact ⟨keyed, hkeyed, howner, fun hb =>
      (hadmin hb).elim (fun howner => ⟨keyed, hkeyed, howner keyed.db⟩) id⟩

/-- A header that is accepted held the token of a principal that is known so. -/
theorem accounts_header (ht : I t) :
    Accounts I i (HttpRoutes.authenticate env xApiKey) t fun r u =>
      ∀ principal, r = .ok principal → ∃ raw, xApiKey = some raw ∧ raw ≠ "" ∧
        Known env (u.Turn i) raw principal := by
  unfold HttpRoutes.authenticate
  cases xApiKey with
  | none => exact Accounts.pure ht fun principal h => absurd h (by simp)
  | some raw =>
    dsimp only
    by_cases hraw : raw = ""
    · rw [if_pos hraw]
      exact Accounts.pure ht fun principal h => absurd h (by simp)
    · rw [if_neg hraw]
      refine Accounts.bind ht (accounts_authenticate hidle ht raw) fun r u hu _ hknown => ?_
      cases r with
      | none => exact Accounts.pure hu fun principal h => absurd h (by simp)
      | some principal =>
        refine Accounts.pure hu fun principal' h => ?_
        cases h
        exact ⟨raw, rfl, hraw, hknown principal rfl⟩

/-- Whom the guard lets pass, it lets pass for what the request has read. -/
theorem accounts_guard (ht : I t) (hguard : guard ≠ .anyone) :
    Accounts I i (checkGuard env xApiKey guard) t fun stopped u =>
      stopped = none → Authorised env (u.Turn i) xApiKey guard := by
  rw [checkGuard_eq hguard]
  refine Accounts.bind ht (accounts_header hidle ht) fun r u hu _ hknown => ?_
  refine Accounts.pure hu fun hpass => ?_
  cases r with
  | error response => cases hpass
  | ok principal =>
    obtain ⟨raw, rfl, hraw, keyed, hturn, howner, hadmin⟩ := hknown principal rfl
    refine ⟨keyed, principal.player, hturn, ?_, ?_⟩
    · show (if raw = "" then none else tokenOwner env keyed.db raw) = some principal.player
      rw [if_neg hraw, howner]
    · by_cases hflag : principal.isAdmin = true
      · exact Or.inr (hadmin hflag)
      · have hfalse : principal.isAdmin = false := by simpa using hflag
        cases guard with
        | anyone => exact absurd rfl hguard
        | admin => simp [verdict, hfalse] at hpass
        | player q =>
          have hq : principal.player = q := by simpa [verdict, hfalse] using hpass
          exact Or.inl (by rw [hq])

end Guards

/-! Among others -/

/-- What a turn of a task does, as far as it matters here. -/
def Acts (app : App) (tasks : ι → Task) (i : ι) (t u : Recorded ι World) : Prop :=
  ∀ xApiKey request, tasks i = .activity (.request xApiKey request) → guardOf request ≠ .anyone →
    Idle t.now u.now ∨ Authorised app.env (t.Turn i) xApiKey (guardOf request)

structure Minded (app : App) (tasks : ι → Task) (t : Recorded ι World) : Prop where
  ticks : ∀ u, t.Saw u → u.tick ≤ t.now.tick
  moves : Moves (Acts app tasks) t.now t.past

section Among
variable {app : App} {tasks : ι → Task} {t : Recorded ι World}

theorem minded_move {w : World} (h : Minded app tasks t) (htick : t.now.tick ≤ w.tick)
    (hacts : Acts app tasks i t (t.move i w)) : Minded app tasks (t.move i w) where
  ticks := tick_le_move h.ticks htick
  moves := ⟨hacts, h.moves⟩

instance : Accountable (Minded app tasks) Ticks where
  ticks := fun _ u h hu => h.ticks u hu
  quiet := fun _ _ _ hs h => minded_move h (by rw [hs.1]; omega) fun _ _ _ _ => Or.inl hs.2
  next := Ticks.next

/-- Every task acts as the invariant records, whatever it does. -/
theorem minded_program (i : ι) (ht : Minded app tasks t) :
    Accounts (Minded app tasks) i (program app (tasks i)) t fun _ _ => True := by
  -- what is known allows every further turn
  have hallowed : ∀ {α : Type} {p : M α} {A : Writes.Write → Prop} {K : Recorded ι World → Prop}
      {u : Recorded ι World}, Writes.Keeps A p → (∀ a b, Later a b → K a → K b) →
      (∀ a w, K a → Acts app tasks i a (a.move i w)) → Minded app tasks u → K u →
      Accounts (Minded app tasks) i p u fun _ _ => True :=
    fun hp hK hacts hu hknown => does_record_frames hp hK (fun a w ha hs hI =>
      minded_move hI (by rw [hs.tick]; omega) (hacts a w ha)) hu hknown
  by_cases hrequest : ∃ xApiKey request, tasks i = .activity (.request xApiKey request) ∧
      guardOf request ≠ .anyone
  · obtain ⟨xApiKey, request, htask, hguard⟩ := hrequest
    rw [htask]
    refine accounts_discarded (accounts_serve ht (accounts_guard (fun _ _ h => h) ht hguard)
      fun u hu hknown => ?_) ht
    refine @hallowed _ _ _ (fun a => Authorised app.env (a.Turn i) xApiKey (guardOf request)) u
      (keeps_handler app request) (fun a b hlater h => h.mono (hlater.turn i)) ?_ hu hknown
    intro a w ha xApiKey' request' htask' _
    obtain ⟨rfl, rfl⟩ : xApiKey = xApiKey' ∧ request = request' := by simpa [htask] using htask'
    exact Or.inr ha
  · refine @hallowed _ _ _ (fun _ => True) t (keeps_program (tasks i)) (fun _ _ _ h => h) ?_ ht trivial
    exact fun a w _ xApiKey request htask hguard =>
      absurd ⟨xApiKey, request, htask, hguard⟩ hrequest

variable [DecidableEq ι]

/-- However the other tasks interleave with it, a turn of a request to a guarded route does
nothing but stamp a key, unless in earlier turns of its own the request has read that the key
of its header is in force, and that its owner is an admin or the player of the route. -/
theorem writes_authorised {i : ι} {request : Request} (app : App) (w : World) (schedule : List ι)
    (htask : tasks i = .activity (.request xApiKey request)) (hguard : guardOf request ≠ .anyone) :
    Idle (afterwards app tasks w schedule) (afterwards app tasks w (schedule ++ [i])) ∨
      Authorised app.env (TurnOf app tasks w schedule i) xApiKey (guardOf request) := by
  obtain ⟨hmirror, hturns⟩ := mirrors_exec w (fun i => program app (tasks i)) schedule
  have hstart : Minded app tasks (⟨w, []⟩ : Recorded ι World) :=
    ⟨tick_le_start w, trivial⟩
  have hrun := fun schedule => (exec_keeps Later.refl Later.trans hstart
    (fun i => minded_program i hstart) schedule).1
  have hlast : ∀ {σ : Type} (P : Pool ι Call σ PyErr Unit),
      P.exec (schedule ++ [i]) = (P.exec schedule).turn i := fun P => List.foldl_concat ..
  have hafter : afterwards app tasks w (schedule ++ [i]) = _ :=
    (congrArg Pool.shared (hlast (process app tasks w))).trans (hmirror.turn i).1.now.symm
  have hbefore : afterwards app tasks w schedule = _ := hmirror.now.symm
  have hminded := hrun (schedule ++ [i])
  rw [hlast] at hminded
  rw [hafter, hbefore]
  have hthread := hmirror.thread i
  generalize (Pool.start ⟨w, []⟩ fun i => record i (program app (tasks i))).exec schedule = Q
    at hminded hturns hthread
  cases hi : ((Pool.start w fun i => program app (tasks i)).exec schedule).thread i with
  | ret a | raise e =>
    rw [hi] at hthread
    rw [Pool.turn_of_finished (by rw [hthread]; rfl)]
    exact Or.inl (Idle.refl _)
  | step call update next =>
    have hstep : Q.thread i = .step call (fun t => t.move i (update t.now))
        fun t => record i (next t.now) := by
      rw [hthread, hi]
      rfl
    rw [Pool.turn_of_step hstep] at hminded ⊢
    exact (hminded.moves.1 xApiKey request htask hguard).imp_right fun h => h.mono (hturns i)

end Among

def taraTasks : Bool → Task
  | true => .activity (.request (some "aomk_tara") (.unsubscribeAll "Tara" true))
  | false => .activity (.tell (fun _ => some "Tara") ⟨7, "market apikey revoke confirm"⟩)

theorem tara_authorised :
    Idle (afterwards calmApp taraTasks taraWithKey [true, false, true])
        (afterwards calmApp taraTasks taraWithKey ([true, false, true] ++ [true])) ∨
      Authorised .calm (TurnOf calmApp taraTasks taraWithKey [true, false, true] true)
        (some "aomk_tara") (.player "Tara") :=
  @writes_authorised Bool (some "aomk_tara") taraTasks inferInstance true
    (.unsubscribeAll "Tara" true) calmApp taraWithKey [true, false, true] rfl (by decide)

end AoMarket.Authority
