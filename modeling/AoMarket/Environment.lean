import AoMarket.Outcomes
import AoMarket.Database
import AoMarket.OrderBook

/-!
The setting the services run in. `Env` answers everything outside the program:
clock, item and order services, web pages, chat sink, socket, random tokens and
database failures. Answers are indexed by `tick`, the number of calls awaited so
far, so a call may be answered differently each time. The world holds the
database, the tick and a log of what an observer of the calls could note down.
-/

namespace AoMarket.Environment

open Coroutine Outcomes Database OrderBook PyNumber PyText

/-- market/errors.py. -/
inductive MarketError where
  | unknownItem (aoid : ℤ)
  | alreadyRegistered (player : String)
  | notRegistered (player : String)
  | alreadyWatching (aoid : ℤ)
  | notWatching (aoid : ℤ)
  | subscriptionLimit (limit : ℤ)
  | invalidRange (spec : String)
deriving DecidableEq, Repr

inductive PyErr where
  | market (e : MarketError)
  | unknownSetting (key : String)
  | http
  | database
  | connection
  | incompleteRead
  | value (message : String)
  | type
  | key
  | struct
  | overflow
  | assertion
  | other (name : String)
deriving DecidableEq, Repr

/-- aodb/client.py's `Item`. -/
structure Item where
  aoid : ℤ
  name : String
  ql : ℤ
  icon : Option ℤ
deriving DecidableEq, Repr

/-- A callback left unset is `none`. -/
structure ChatSink where
  sendPrivgroup : Option (ℕ → String → Except PyErr Unit) := none
  sendTell : Option (ℕ → String → String → Except PyErr Unit) := none
  isOnline : Option (ℕ → String → Except PyErr Bool) := none

/-- `setOrder l kept` is the order in which the set `kept` is walked that was left of a set
filled in the order `l`, `idOrder` that of a set of ids; `rowOrder`, `watchOrder` and
`groupOrder` are the orders a select leaves open; `bigint` is the driver's conversion of a
number to a 64-bit column, `numeric` the floats it takes for a numeric one; `storable` are the
texts the server takes (no NUL, no index entry too long). -/
structure Env where
  py : Runtime
  clock : ℕ → ℤ
  dbFault : ℕ → Option PyErr
  getItem : ℕ → ℤ → Except PyErr (Option Item)
  searchItems : ℕ → String → Except PyErr (List Item)
  getOrders : ℕ → ℤ → Except PyErr (Option Orders)
  fetchPage : ℕ → String → Except PyErr (Option String)
  chat : ChatSink
  socket : ℕ → Except PyErr Unit
  token : ℕ → String
  hash : String → String
  ownerCharacter : String
  bigint : PyNum → Option ℤ
  bigint_int : ∀ n : ℤ, bigint (.int n) = if -2 ^ 63 ≤ n ∧ n < 2 ^ 63 then some n else none
  numeric : PyFloat → Bool
  numeric_fin : ∀ q, numeric (.fin q) = true
  setOrder : List String → List String → List String
  setOrder_perm : ∀ l kept, (setOrder l kept).Perm kept
  rowOrder : ℕ → List Models.MarketSubscription → List Models.MarketSubscription
  rowOrder_perm : ∀ t l, (rowOrder t l).Perm l
  watchOrder : ℕ → List Models.MarketWatch → List Models.MarketWatch
  watchOrder_perm : ∀ t l, (watchOrder t l).Perm l
  groupOrder : ℕ → List String → List String
  groupOrder_perm : ∀ t l, (groupOrder t l).Perm l
  idOrder : List ℤ → List ℤ
  idOrder_perm : ∀ l, (idOrder l).Perm l
  storable : String → Bool
  storable_plain : ∀ s : String, s.length ≤ 100 →
    s.toList.all (fun c => 32 ≤ c.toNat && c.toNat < 127) = true → storable s = true

/-- An environment in which no call fails: no item is known, no sink is set and the
order service has no data. -/
def Env.calm : Env where
  py := .ascii
  clock _ := 0
  dbFault _ := none
  getItem _ _ := .ok none
  searchItems _ _ := .ok []
  getOrders _ _ := .ok none
  fetchPage _ _ := .ok none
  chat := {}
  socket _ := .ok ()
  token _ := ""
  hash s := s
  ownerCharacter := ""
  bigint
    | .int n => if -2 ^ 63 ≤ n ∧ n < 2 ^ 63 then some n else none
    | .float _ => none
  bigint_int _ := rfl
  numeric
    | .fin _ => true
    | _ => false
  numeric_fin _ := rfl
  setOrder _ kept := kept
  setOrder_perm _ _ := .refl _
  rowOrder _ l := l
  rowOrder_perm _ _ := .refl _
  watchOrder _ l := l
  watchOrder_perm _ _ := .refl _
  groupOrder _ l := l
  groupOrder_perm _ _ := .refl _
  idOrder l := l
  idOrder_perm _ := .refl _
  storable _ := true
  storable_plain _ _ _ := rfl

inductive Event where
  | created (aoid : ℤ)
  | fetched (aoid : ℤ) (book : Orders)
  | snapshot (aoid cycle : ℤ)
  | notified (aoid : ℤ) (orders : List (String × NewOrder))
  | alerted (player : String) (aoid : ℤ) (orders : List (String × NewOrder)) (sent : Bool)
  | replaced (aoid : ℤ) (fingerprints : List String)
  | tell (player message : String)
  | privgroup (message : String)
  | reply (charId : ℕ) (message : String)

structure World where
  db : Db
  tick : ℕ := 0
  log : List Event := []

/-- The awaited calls: repository methods, services, sinks. -/
inductive Call where
  | getUser | register | countUserRows | deleteUser
  | getWatch | upsertWatch | deleteWatch | countWatch | clearWatch | listWatch
  | selectStale | deleteStale | dueForPoll | updateLastPolled
  | unflagAutotrack | existingAoids | insertSnapshot | pruneHistory
  | getSubscription | countSubscriptions | addSubscription | deleteSubscription
  | deleteAllSubscriptions | listSubscriptions | updateFilter | subscribersForAoid
  | getSeen | replaceSeen | queueAlert | selectAlerts | deleteAlerts
  | logAction | actionSummary | actionBreakdown
  | getSetting | setSetting | allSettings
  | revokeKeys | createKey | getKey | listKeys | touchKey
  | dueForRetry | getBackoff | recordFailure | recordSuccess
  | clock | token
  | getItem | searchItems | getOrders | fetchPage
  | sendPrivgroup | sendTell | isOnline | sendReply
  | selectOne
deriving DecidableEq, Repr

abbrev M (α : Type) := Coro Call World PyErr α

namespace World

def next (w : World) : World := { w with tick := w.tick + 1 }

end World

variable {α : Type}

/-- One statement of a session with its commit, issued at a tick: the server may
fail it, or refuse it (`f` returns an error), and then the database is as before. -/
def statement (env : Env) (call : Call)
    (f : ℕ → Db → Except PyErr (α × Db × List Event)) : M α :=
  Coro.act call fun w =>
    match env.dbFault w.tick with
    | some e => (.error e, w.next)
    | none =>
      match f w.tick w.db with
      | .error e => (.error e, w.next)
      | .ok (a, db, note) => (.ok a, { db := db, tick := w.tick + 1, log := w.log ++ note })

def query (env : Env) (call : Call) (f : ℕ → Db → Except PyErr α)
    (note : List Event := []) : M α :=
  statement env call fun tick db => (f tick db).map fun a => (a, db, note)

/-- A call out of the process; a successful one is noted in the log. -/
def external (call : Call) (f : ℕ → Except PyErr α) (note : α → List Event := fun _ => []) :
    M α :=
  Coro.act call fun w =>
    match f w.tick with
    | .error e => (.error e, w.next)
    | .ok a => (.ok a, { w.next with log := w.log ++ note a })

/-- The server refuses integers outside the column type. -/
def int8 (n : ℤ) : Except PyErr Unit :=
  if -2 ^ 63 ≤ n ∧ n < 2 ^ 63 then .ok () else .error .database

def int4 (n : ℤ) : Except PyErr Unit :=
  if -2 ^ 31 ≤ n ∧ n < 2 ^ 31 then .ok () else .error .database

/-- The server refuses texts it cannot store, also as parameters. -/
def text (env : Env) (s : String) : Except PyErr Unit :=
  if env.storable s then .ok () else .error .database

section Except
variable {β : Type}

theorem ok_bind (a : α) (f : α → Except PyErr β) : (Except.ok a >>= f) = f a := rfl

theorem error_bind (e : PyErr) (f : α → Except PyErr β) : (Except.error e >>= f) = .error e := rfl

theorem isOk_iff {ε : Type} {r : Except ε α} : r.isOk = true ↔ ∃ a, r = .ok a := by
  cases r with
  | error e => simp [Except.isOk, Except.toBool]
  | ok a => simp [Except.isOk, Except.toBool]

theorem bind_eq_error {x : Except PyErr α} {f : α → Except PyErr β} {e : PyErr}
    (h : (x >>= f) = .error e) : x = .error e ∨ ∃ a, f a = .error e := by
  cases x with
  | error e' =>
    cases h
    exact Or.inl rfl
  | ok a => exact Or.inr ⟨a, h⟩

theorem except_bind_eq_ok {ε : Type} {x : Except ε α} {f : α → Except ε β} {b : β} :
    (x >>= f) = .ok b ↔ ∃ a, x = .ok a ∧ f a = .ok b := by
  cases x with
  | error e => simp [bind, Except.bind]
  | ok a => simp [bind, Except.bind]

theorem mapM_eq_ok {f : α → Except PyErr β} {l : List α} {bs : List β}
    (h : l.mapM f = .ok bs) :
    (∀ b ∈ bs, ∃ a ∈ l, f a = .ok b) ∧ ∀ a ∈ l, ∃ b ∈ bs, f a = .ok b := by
  induction l generalizing bs with
  | nil =>
    rw [← Except.ok.inj h]
    exact ⟨by simp, by simp⟩
  | cons a rest ih =>
    rw [List.mapM_cons] at h
    obtain ⟨b, hb, h⟩ := except_bind_eq_ok.mp h
    obtain ⟨bs', hrest, h⟩ := except_bind_eq_ok.mp h
    obtain ⟨hback, hforth⟩ := ih hrest
    rw [← Except.ok.inj h]
    constructor
    · intro c hc
      rcases List.mem_cons.mp hc with rfl | hc
      · exact ⟨a, List.mem_cons_self, hb⟩
      · obtain ⟨a', ha', hf⟩ := hback c hc
        exact ⟨a', List.mem_cons_of_mem a ha', hf⟩
    · intro a' ha'
      rcases List.mem_cons.mp ha' with rfl | ha'
      · exact ⟨b, List.mem_cons_self, hb⟩
      · obtain ⟨c, hc, hf⟩ := hforth a' ha'
        exact ⟨c, List.mem_cons_of_mem b hc, hf⟩

theorem mapM_ok {f : α → Except PyErr β} {l : List α}
    (h : ∀ a ∈ l, ∃ b, f a = .ok b) : ∃ bs, l.mapM f = .ok bs := by
  induction l with
  | nil => exact ⟨[], rfl⟩
  | cons a rest ih =>
    obtain ⟨b, hb⟩ := h a List.mem_cons_self
    obtain ⟨bs, hbs⟩ := ih fun a' ha' => h a' (List.mem_cons_of_mem a ha')
    rw [List.mapM_cons]
    exact ⟨b :: bs, except_bind_eq_ok.mpr ⟨b, hb, except_bind_eq_ok.mpr ⟨bs, hbs, rfl⟩⟩⟩

end Except

section Frames
variable {R : World → World → Prop}

/-- A relation is kept by a statement if it is kept by a refusal, which only takes a tick, and
by the statement's effect. -/
theorem frames_statement {env : Env} {call : Call}
    {f : ℕ → Db → Except PyErr (α × Db × List Event)}
    (hfail : ∀ w : World, R w w.next)
    (hok : ∀ w : World, ∀ a db note, f w.tick w.db = .ok (a, db, note) →
      R w { db := db, tick := w.tick + 1, log := w.log ++ note }) :
    (statement env call f).Frames R := by
  apply Coro.Frames.act
  intro w
  cases hfault : env.dbFault w.tick with
  | some e => exact hfail w
  | none =>
    cases hres : f w.tick w.db with
    | error e => exact hfail w
    | ok r => exact hok w r.1 r.2.1 r.2.2 hres

theorem frames_query {env : Env} {call : Call} {f : ℕ → Db → Except PyErr α} {note : List Event}
    (hfail : ∀ w : World, R w w.next)
    (hok : ∀ w : World, R w { w.next with log := w.log ++ note }) :
    (query env call f note).Frames R := by
  apply frames_statement hfail
  intro w a db note' h
  cases hf : f w.tick w.db with
  | error e =>
    rw [hf] at h
    cases h
  | ok b =>
    rw [hf] at h
    cases h
    exact hok w

theorem frames_external {call : Call} {f : ℕ → Except PyErr α} {note : α → List Event}
    (hfail : ∀ w : World, R w w.next)
    (hok : ∀ w : World, ∀ a, R w { w.next with log := w.log ++ note a }) :
    (external call f note).Frames R := by
  apply Coro.Frames.act
  intro w
  cases hres : f w.tick with
  | error e => exact hfail w
  | ok a => exact hok w a

end Frames

section Calls
variable {K : Call → Prop}

theorem calls_external {call : Call} {f : ℕ → Except PyErr α} {note : α → List Event}
    (h : K call) : (external call f note).Calls K := Coro.Calls.act h

theorem calls_query {call : Call} {f : ℕ → Db → Except PyErr α} {note : List Event}
    (h : K call) : (query env call f note).Calls K := Coro.Calls.act h

theorem calls_statement {call : Call} {f : ℕ → Db → Except PyErr (α × Db × List Event)}
    (h : K call) : (statement env call f).Calls K := Coro.Calls.act h

end Calls

/-- A statement either raises and changes nothing, or the server was up and took it. -/
theorem run_statement_cases {env : Env} {call : Call}
    {f : ℕ → Db → Except PyErr (α × Db × List Event)} (w : World) :
    (∃ e, (statement env call f).run w = (.error e, w.next)) ∨
      env.dbFault w.tick = none ∧ ∃ a db note, f w.tick w.db = .ok (a, db, note) ∧
        (statement env call f).run w =
          (.ok a, { db := db, tick := w.tick + 1, log := w.log ++ note }) := by
  unfold statement
  rw [Coro.run_act]
  cases hfault : env.dbFault w.tick with
  | some e => exact Or.inl ⟨e, rfl⟩
  | none =>
    cases hres : f w.tick w.db with
    | error e => exact Or.inl ⟨e, rfl⟩
    | ok r => exact Or.inr ⟨rfl, r.1, r.2.1, r.2.2, rfl, rfl⟩

section Yielding
variable {env : Env} {call : Call} {w : World} {Q : α → World → Prop} {E : PyErr → World → Prop}

theorem yields_statement_of {f : ℕ → Db → Except PyErr (α × Db × List Event)}
    (hfail : ∀ e, env.dbFault w.tick = some e ∨ f w.tick w.db = .error e → E e w.next)
    (hok : ∀ a db note, env.dbFault w.tick = none → f w.tick w.db = .ok (a, db, note) →
      Q a { db := db, tick := w.tick + 1, log := w.log ++ note }) :
    Yields (statement env call f) w Q E := by
  unfold Yields statement
  rw [Coro.run_act]
  cases hfault : env.dbFault w.tick with
  | some e => exact hfail e (Or.inl hfault)
  | none =>
    cases hres : f w.tick w.db with
    | error e => exact hfail e (Or.inr hres)
    | ok r => exact hok r.1 r.2.1 r.2.2 hfault hres

theorem yields_statement {f : ℕ → Db → Except PyErr (α × Db × List Event)}
    (hfail : ∀ e, E e w.next)
    (hok : ∀ a db note, f w.tick w.db = .ok (a, db, note) →
      Q a { db := db, tick := w.tick + 1, log := w.log ++ note }) :
    Yields (statement env call f) w Q E :=
  yields_statement_of (fun e _ => hfail e) fun a db note _ => hok a db note

theorem yields_query_of {f : ℕ → Db → Except PyErr α} {note : List Event}
    (hfail : ∀ e, env.dbFault w.tick = some e ∨ f w.tick w.db = .error e → E e w.next)
    (hok : ∀ a, env.dbFault w.tick = none → f w.tick w.db = .ok a →
      Q a { w.next with log := w.log ++ note }) :
    Yields (query env call f note) w Q E := by
  apply yields_statement_of
  · rintro e (hfault | hres)
    · exact hfail e (Or.inl hfault)
    · refine hfail e (Or.inr ?_)
      cases hf : f w.tick w.db with
      | error e' =>
        rw [hf] at hres
        cases hres
        rfl
      | ok a =>
        rw [hf] at hres
        cases hres
  · intro a db note' hfault hres
    cases hf : f w.tick w.db with
    | error e =>
      rw [hf] at hres
      cases hres
    | ok b =>
      rw [hf] at hres
      cases hres
      exact hok _ hfault hf

/-- With the server up only the statement itself can raise. -/
theorem yields_statement_up {f : ℕ → Db → Except PyErr (α × Db × List Event)}
    (hup : env.dbFault w.tick = none) (hfail : ∀ e, f w.tick w.db = .error e → E e w.next)
    (hok : ∀ a db note, f w.tick w.db = .ok (a, db, note) →
      Q a { db := db, tick := w.tick + 1, log := w.log ++ note }) :
    Yields (statement env call f) w Q E := by
  apply yields_statement_of
  · rintro e (hfault | hres)
    · rw [hup] at hfault
      cases hfault
    · exact hfail e hres
  · exact fun a db note _ => hok a db note

theorem yields_query_up {f : ℕ → Db → Except PyErr α} {note : List Event}
    (hup : env.dbFault w.tick = none) (hfail : ∀ e, f w.tick w.db = .error e → E e w.next)
    (hok : ∀ a, f w.tick w.db = .ok a → Q a { w.next with log := w.log ++ note }) :
    Yields (query env call f note) w Q E := by
  apply yields_query_of
  · rintro e (hfault | hres)
    · rw [hup] at hfault
      cases hfault
    · exact hfail e hres
  · exact fun a _ => hok a

theorem yields_external {f : ℕ → Except PyErr α} {note : α → List Event}
    (hfail : ∀ e, f w.tick = .error e → E e w.next)
    (hok : ∀ a, f w.tick = .ok a → Q a { w.next with log := w.log ++ note a }) :
    Yields (external call f note) w Q E := by
  unfold Yields external
  rw [Coro.run_act]
  cases hres : f w.tick with
  | error e => exact hfail e hres
  | ok a => exact hok a hres

end Yielding

/-- A statement that returned was taken by a server that was up. -/
theorem run_statement_eq_ok {env : Env} {call : Call}
    {f : ℕ → Db → Except PyErr (α × Db × List Event)} {w w' : World} {a : α}
    (h : (statement env call f).run w = (.ok a, w')) :
    env.dbFault w.tick = none ∧ ∃ db note, f w.tick w.db = .ok (a, db, note) ∧
      w' = { db := db, tick := w.tick + 1, log := w.log ++ note } := by
  rcases run_statement_cases w with ⟨e, hfail⟩ | ⟨hup, b, db, note, hf, hrun⟩
  · rw [hfail] at h
    cases h
  · rw [hrun] at h
    cases h
    exact ⟨hup, db, note, hf, rfl⟩

/-- A query that returned found its answer in the database and only noted its event. -/
theorem run_query_eq_ok {env : Env} {call : Call} {f : ℕ → Db → Except PyErr α}
    {note : List Event} {w w' : World} {a : α}
    (h : (query env call f note).run w = (.ok a, w')) :
    f w.tick w.db = .ok a ∧ w' = { w.next with log := w.log ++ note } := by
  obtain ⟨_, db, note', hf, rfl⟩ := run_statement_eq_ok h
  cases hres : f w.tick w.db with
  | error e =>
    rw [hres] at hf
    cases hf
  | ok b =>
    rw [hres] at hf
    cases hf
    exact ⟨rfl, rfl⟩

theorem run_external_eq_ok {call : Call} {f : ℕ → Except PyErr α} {note : α → List Event}
    {w w' : World} {a : α} (h : (external call f note).run w = (.ok a, w')) :
    f w.tick = .ok a ∧ w' = { w.next with log := w.log ++ note a } := by
  unfold external at h
  rw [Coro.run_act] at h
  cases hres : f w.tick with
  | error e =>
    simp only [hres] at h
    cases h
  | ok b =>
    simp only [hres] at h
    cases h
    exact ⟨rfl, rfl⟩

/-! Runs of single calls when the server does not fail -/

section Healthy
variable {env : Env} {call : Call} {w : World}

theorem run_statement_ok (hdb : env.dbFault w.tick = none)
    {f : ℕ → Db → Except PyErr (α × Db × List Event)} {a : α} {db : Db} {note : List Event}
    (h : f w.tick w.db = .ok (a, db, note)) :
    (statement env call f).run w =
      (.ok a, { db := db, tick := w.tick + 1, log := w.log ++ note }) := by
  simp only [statement, Coro.run_act, hdb, h]

theorem run_statement_error (hdb : env.dbFault w.tick = none)
    {f : ℕ → Db → Except PyErr (α × Db × List Event)} {e : PyErr}
    (h : f w.tick w.db = .error e) :
    (statement env call f).run w = (.error e, w.next) := by
  simp only [statement, Coro.run_act, hdb, h]

theorem run_query_ok (hdb : env.dbFault w.tick = none) {f : ℕ → Db → Except PyErr α}
    {note : List Event} {a : α} (h : f w.tick w.db = .ok a) :
    (query env call f note).run w = (.ok a, { w.next with log := w.log ++ note }) :=
  run_statement_ok hdb (by rw [h]; rfl)

theorem run_query_error (hdb : env.dbFault w.tick = none) {f : ℕ → Db → Except PyErr α}
    {note : List Event} {e : PyErr} (h : f w.tick w.db = .error e) :
    (query env call f note).run w = (.error e, w.next) :=
  run_statement_error hdb (by rw [h]; rfl)

theorem returns_statement {Q : α → World → Prop} (hdb : env.dbFault w.tick = none)
    {f : ℕ → Db → Except PyErr (α × Db × List Event)} {a : α} {db : Db} {note : List Event}
    (h : f w.tick w.db = .ok (a, db, note))
    (hq : Q a { db := db, tick := w.tick + 1, log := w.log ++ note }) :
    Returns (statement env call f) w Q := by
  rw [Returns, Yields, run_statement_ok hdb h]
  exact hq

theorem returns_query {Q : α → World → Prop} (hdb : env.dbFault w.tick = none)
    {f : ℕ → Db → Except PyErr α} {note : List Event} {a : α} (h : f w.tick w.db = .ok a)
    (hq : Q a { w.next with log := w.log ++ note }) : Returns (query env call f note) w Q := by
  rw [Returns, Yields, run_query_ok hdb h]
  exact hq

end Healthy

section Externals
variable {call : Call} {w : World} {f : ℕ → Except PyErr α} {note : α → List Event}

theorem run_external_ok {a : α} (h : f w.tick = .ok a) :
    (external call f note).run w = (.ok a, { w.next with log := w.log ++ note a }) := by
  simp only [external, Coro.run_act, h]

theorem run_external_error {e : PyErr} (h : f w.tick = .error e) :
    (external call f note).run w = (.error e, w.next) := by
  simp only [external, Coro.run_act, h]

theorem returns_external {Q : α → World → Prop} {a : α} (h : f w.tick = .ok a)
    (hq : Q a { w.next with log := w.log ++ note a }) : Returns (external call f note) w Q := by
  rw [Returns, Yields, run_external_ok h]
  exact hq

end Externals

end AoMarket.Environment
