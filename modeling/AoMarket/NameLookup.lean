import AoMarket.ChatClient

/-!
Concurrent lookup_user calls over one client. Calls are numbered; a run is a list
of events: a call begins and sends its request, a reply is dispatched, the timer
of a call fires, the task of a call is run again, its send fails. All calls share
one dictionary of waiters, one entry for a key, which each call overwrites when it
begins and removes when it ends.
-/

namespace AoMarket.NameLookup

open Environment Packet ChatClient

/-- `expired`: the timer has fired and the task, when it runs, sees TimeoutError. -/
inductive CallState where
  | idle
  | waiting (key : String) (future : ℕ) (expired : Bool)
  | returned (result : Option ℕ)
  | raised
deriving DecidableEq, Repr

structure State where
  client : Client := {}
  calls : ℕ → CallState := fun _ => .idle

inductive Event where
  | start (i : ℕ) (name : String)
  | reply (charId : ℕ) (name : Bytes)
  | timeout (i : ℕ)
  | resume (i : ℕ)
  | fail (i : ℕ)

def Future.result : Future → Option ℕ
  | .done r => r
  | _ => none

def cancel (c : Client) (f : ℕ) : Client :=
  if c.futures f = .pending then { c with futures := Function.update c.futures f .cancelled } else c

namespace State

def finish (s : State) (i : ℕ) (key : String) (outcome : CallState) : State :=
  { client := { s.client with lookupWaiters := Function.update s.client.lookupWaiters key none }
    calls := Function.update s.calls i outcome }

def start (lower : String → String) (s : State) (i : ℕ) (name : String) : State :=
  match s.client.beginLookup lower name with
  | .inl charId => { s with calls := Function.update s.calls i (.returned (some charId)) }
  | .inr (f, client) =>
    { client := client, calls := Function.update s.calls i (.waiting (lower name) f false) }

/-- An event of a call that is not where the event finds it changes nothing. -/
def step (lower : String → String) (s : State) : Event → State
  | .start i name =>
    match s.calls i with
    | .idle => s.start lower i name
    | _ => s
  | .reply charId name => { s with client := s.client.receiveLookup lower charId name }
  | .timeout i =>
    match s.calls i with
    | .waiting key f false =>
      { client := cancel s.client f
        calls := Function.update s.calls i (.waiting key f true) }
    | _ => s
  | .resume i =>
    match s.calls i with
    | .waiting key f expired =>
      if s.client.futures f = .pending then s
      else if expired then s.finish i key (.returned none)
      else s.finish i key (.returned (Future.result (s.client.futures f)))
    | _ => s
  | .fail i =>
    match s.calls i with
    | .waiting key _ _ => s.finish i key .raised
    | _ => s

def run (lower : String → String) (s : State) (events : List Event) : State :=
  events.foldl (step lower) s

end State

/-- What a reply resolves its waiter with. -/
def resolved (charId : ℕ) : Option ℕ := if charId = notFound then none else some charId

/-- A call starts when no other waits under its key; between the reply that resolves
a call and its return no other reply says otherwise, its timer does not fire and its
send does not fail. -/
def Clear (lower : String → String) (s : State) : Event → Prop
  | .start i name =>
    s.calls i = .idle → s.client.nameToId (lower name) = none →
      ∀ j f expired, s.calls j ≠ .waiting (lower name) f expired
  | .reply charId name =>
    ∀ i f r, s.calls i = .waiting (lower (latin1 name)) f false →
      s.client.futures f = .done r → r = resolved charId
  | .timeout i => ∀ key f, s.calls i = .waiting key f false → s.client.futures f = .pending
  | .resume _ => True
  | .fail i => ∀ key f, s.calls i = .waiting key f false → s.client.futures f = .pending

def ClearRun (lower : String → String) : State → List Event → Prop
  | _, [] => True
  | s, e :: rest => Clear lower s e ∧ ClearRun lower (s.step lower e) rest

/-- Each waiting call is the one its key is filed for, and no two share a future. -/
structure Inv (s : State) : Prop where
  created : ∀ key f, s.client.lookupWaiters key = some f → f < s.client.created
  unshared : ∀ key key' f, s.client.lookupWaiters key = some f →
    s.client.lookupWaiters key' = some f → key = key'
  filed : ∀ i key f expired, s.calls i = .waiting key f expired →
    s.client.lookupWaiters key = some f
  alone : ∀ i j key f f' expired expired', s.calls i = .waiting key f expired →
    s.calls j = .waiting key f' expired' → i = j

/-- The call has, or will return when its task runs, this id. -/
def Settled (s : State) (i charId : ℕ) : Prop :=
  (∃ key f, s.calls i = .waiting key f false ∧ s.client.futures f = .done (some charId)) ∨
    s.calls i = .returned (some charId)

/-! The waiters and futures after one client operation -/

@[simp] theorem remember_futures (c : Client) (key : String) (r : Option ℕ) :
    (c.remember key r).futures = c.futures := by cases r <;> rfl

@[simp] theorem remember_waiters (c : Client) (key : String) (r : Option ℕ) :
    (c.remember key r).lookupWaiters = c.lookupWaiters := by cases r <;> rfl

@[simp] theorem remember_created (c : Client) (key : String) (r : Option ℕ) :
    (c.remember key r).created = c.created := by cases r <;> rfl

@[simp] theorem resolve_waiters (c : Client) (key : String) (r : Option ℕ) :
    (c.resolve key r).lookupWaiters = c.lookupWaiters := by
  unfold Client.resolve
  split
  · split <;> rfl
  · rfl

@[simp] theorem resolve_created (c : Client) (key : String) (r : Option ℕ) :
    (c.resolve key r).created = c.created := by
  unfold Client.resolve
  split
  · split <;> rfl
  · rfl

theorem resolve_pending {c : Client} {key : String} {f : ℕ} (hkey : c.lookupWaiters key = some f)
    (hpending : c.futures f = .pending) (r : Option ℕ) : (c.resolve key r).futures f = .done r := by
  unfold Client.resolve
  rw [hkey]
  simp only [if_pos hpending, Function.update_self]

/-- A future that is done stays as it is. -/
theorem resolve_of_ne_pending (c : Client) (key : String) (r : Option ℕ) {f : ℕ}
    (hf : c.futures f ≠ .pending) : (c.resolve key r).futures f = c.futures f := by
  unfold Client.resolve
  split
  · next g hg =>
    by_cases hpending : c.futures g = .pending
    · have hne : f ≠ g := by
        intro hfg
        subst hfg
        exact hf hpending
      simp only [if_pos hpending, Function.update_of_ne hne]
    · rw [if_neg hpending]
  · rfl

theorem cancelled_of_resolve {c : Client} {key : String} {r : Option ℕ} {f : ℕ}
    (h : (c.resolve key r).futures f = .cancelled) : c.futures f = .cancelled := by
  unfold Client.resolve at h
  split at h
  · next g hg =>
    by_cases hpending : c.futures g = .pending
    · rw [if_pos hpending] at h
      by_cases hfg : f = g
      · subst hfg
        simp at h
      · simpa only [Function.update_of_ne hfg] using h
    · rwa [if_neg hpending] at h
  · exact h

@[simp] theorem cancel_waiters (c : Client) (f : ℕ) :
    (cancel c f).lookupWaiters = c.lookupWaiters := by
  unfold cancel
  split <;> rfl

@[simp] theorem cancel_created (c : Client) (f : ℕ) : (cancel c f).created = c.created := by
  unfold cancel
  split <;> rfl

theorem cancel_of_ne (c : Client) {f g : ℕ} (h : g ≠ f) : (cancel c f).futures g = c.futures g := by
  unfold cancel
  split
  · simp only [Function.update_of_ne h]
  · rfl

theorem futures_receiveLookup (lower : String → String) (c : Client) (charId : ℕ) (name : Bytes) :
    (c.receiveLookup lower charId name).futures =
      ((c.remember (lower (latin1 name)) (resolved charId)).resolve (lower (latin1 name))
        (resolved charId)).futures := rfl

@[simp] theorem receiveLookup_waiters (lower : String → String) (c : Client) (charId : ℕ)
    (name : Bytes) : (c.receiveLookup lower charId name).lookupWaiters = c.lookupWaiters := by
  simp [Client.receiveLookup]

@[simp] theorem receiveLookup_created (lower : String → String) (c : Client) (charId : ℕ)
    (name : Bytes) : (c.receiveLookup lower charId name).created = c.created := by
  simp [Client.receiveLookup]

theorem start_cached {lower : String → String} {s : State} {name : String} {charId : ℕ}
    (h : s.client.nameToId (lower name) = some charId) (i : ℕ) :
    s.start lower i name =
      { s with calls := Function.update s.calls i (.returned (some charId)) } := by
  simp only [State.start, Client.beginLookup, h]

theorem start_new {lower : String → String} {s : State} {name : String}
    (h : s.client.nameToId (lower name) = none) (i : ℕ) :
    s.start lower i name =
      { client := { s.client with
          lookupWaiters := Function.update s.client.lookupWaiters (lower name)
            (some s.client.created)
          futures := Function.update s.client.futures s.client.created .pending
          created := s.client.created + 1 }
        calls := Function.update s.calls i (.waiting (lower name) s.client.created false) } := by
  simp only [State.start, Client.beginLookup, h]

/-! The invariant -/

section Steps
variable {lower : String → String} {s : State}

/-- A step that files nothing and starts nothing keeps the invariant. -/
theorem Inv.mono (h : Inv s) {s' : State} (hwaiters : s'.client.lookupWaiters = s.client.lookupWaiters)
    (hcreated : s'.client.created = s.client.created)
    (hcalls : ∀ i key f expired, s'.calls i = .waiting key f expired →
      ∃ expired', s.calls i = .waiting key f expired') : Inv s' where
  created key f hf := by
    rw [hwaiters] at hf
    rw [hcreated]
    exact h.created key f hf
  unshared key key' f hf hf' := by
    rw [hwaiters] at hf hf'
    exact h.unshared key key' f hf hf'
  filed i key f expired hi := by
    obtain ⟨expired', hi'⟩ := hcalls i key f expired hi
    rw [hwaiters]
    exact h.filed i key f expired' hi'
  alone i j key f f' expired expired' hi hj := by
    obtain ⟨e, hi'⟩ := hcalls i key f expired hi
    obtain ⟨e', hj'⟩ := hcalls j key f' expired' hj
    exact h.alone i j key f f' e e' hi' hj'

/-- A call that ends takes its own entry with it and no other. -/
theorem Inv.finish (h : Inv s) {i f : ℕ} {key : String} {expired : Bool}
    (hi : s.calls i = .waiting key f expired) {outcome : CallState}
    (hout : ∀ k g e, outcome ≠ .waiting k g e) : Inv (s.finish i key outcome) where
  created k g hg := by
    by_cases hk : k = key
    · subst hk
      simp [State.finish] at hg
    · simp only [State.finish, Function.update_of_ne hk] at hg
      exact h.created k g hg
  unshared k k' g hg hg' := by
    by_cases hk : k = key
    · subst hk
      simp [State.finish] at hg
    · by_cases hk' : k' = key
      · subst hk'
        simp [State.finish] at hg'
      · simp only [State.finish, Function.update_of_ne hk] at hg
        simp only [State.finish, Function.update_of_ne hk'] at hg'
        exact h.unshared k k' g hg hg'
  filed j k g e hj := by
    by_cases hji : j = i
    · subst hji
      simp only [State.finish, Function.update_self] at hj
      exact absurd hj (hout k g e)
    · simp only [State.finish, Function.update_of_ne hji] at hj
      have hk : k ≠ key := by
        intro hk
        subst hk
        exact hji (h.alone j i k g f e expired hj hi)
      simp only [State.finish, Function.update_of_ne hk]
      exact h.filed j k g e hj
  alone j j' k g g' e e' hj hj' := by
    by_cases hji : j = i
    · subst hji
      simp only [State.finish, Function.update_self] at hj
      exact absurd hj (hout k g e)
    · by_cases hji' : j' = i
      · subst hji'
        simp only [State.finish, Function.update_self] at hj'
        exact absurd hj' (hout k g' e')
      · simp only [State.finish, Function.update_of_ne hji] at hj
        simp only [State.finish, Function.update_of_ne hji'] at hj'
        exact h.alone j j' k g g' e e' hj hj'

/-- A new call files a new future under a key nobody waits under. -/
theorem Inv.start (h : Inv s) {i : ℕ} {name : String}
    (hclear : s.client.nameToId (lower name) = none →
      ∀ j f expired, s.calls j ≠ .waiting (lower name) f expired) :
    Inv (s.start lower i name) := by
  cases hcache : s.client.nameToId (lower name) with
  | some charId =>
    rw [start_cached hcache]
    refine h.mono rfl rfl ?_
    intro j key f expired hj
    by_cases hji : j = i
    · subst hji
      simp at hj
    · simp only [Function.update_of_ne hji] at hj
      exact ⟨expired, hj⟩
  | none =>
    have hnone := hclear hcache
    rw [start_new hcache]
    constructor
    · intro k g hg
      by_cases hk : k = lower name
      · subst hk
        simp only [Function.update_self, Option.some.injEq] at hg
        simp only
        omega
      · simp only [Function.update_of_ne hk] at hg
        have := h.created k g hg
        simp only
        omega
    · intro k k' g hg hg'
      by_cases hk : k = lower name
      · by_cases hk' : k' = lower name
        · rw [hk, hk']
        · subst hk
          simp only [Function.update_self, Option.some.injEq] at hg
          simp only [Function.update_of_ne hk'] at hg'
          have := h.created k' g hg'
          omega
      · simp only [Function.update_of_ne hk] at hg
        by_cases hk' : k' = lower name
        · subst hk'
          simp only [Function.update_self, Option.some.injEq] at hg'
          have := h.created k g hg
          omega
        · simp only [Function.update_of_ne hk'] at hg'
          exact h.unshared k k' g hg hg'
    · intro j k g e hj
      by_cases hji : j = i
      · subst hji
        simp only [Function.update_self, CallState.waiting.injEq] at hj
        obtain ⟨rfl, rfl, _⟩ := hj
        simp
      · simp only [Function.update_of_ne hji] at hj
        have hk : k ≠ lower name := by
          intro hk
          subst hk
          exact hnone j g e hj
        simp only [Function.update_of_ne hk]
        exact h.filed j k g e hj
    · intro j j' k g g' e e' hj hj'
      by_cases hji : j = i
      · by_cases hji' : j' = i
        · rw [hji, hji']
        · subst hji
          simp only [Function.update_self, CallState.waiting.injEq] at hj
          simp only [Function.update_of_ne hji'] at hj'
          rw [← hj.1] at hj'
          exact absurd hj' (hnone j' g' e')
      · simp only [Function.update_of_ne hji] at hj
        by_cases hji' : j' = i
        · subst hji'
          simp only [Function.update_self, CallState.waiting.injEq] at hj'
          rw [← hj'.1] at hj
          exact absurd hj (hnone j g e)
        · simp only [Function.update_of_ne hji'] at hj'
          exact h.alone j j' k g g' e e' hj hj'

/-- Under the condition an event leaves every waiting call the one its key is filed for. -/
theorem inv_step (h : Inv s) {e : Event} (hclear : Clear lower s e) : Inv (s.step lower e) := by
  cases e with
  | start i name =>
    simp only [State.step]
    split
    · next hidle => exact h.start (hclear hidle)
    · exact h
  | reply charId name =>
    exact h.mono (receiveLookup_waiters lower _ _ _) (receiveLookup_created lower _ _ _)
      fun _ _ _ e hi => ⟨e, hi⟩
  | timeout i =>
    simp only [State.step]
    split
    · next key f hi =>
      refine h.mono (cancel_waiters _ f) (cancel_created _ f) ?_
      intro j k g e hj
      by_cases hji : j = i
      · subst hji
        simp only [Function.update_self, CallState.waiting.injEq] at hj
        obtain ⟨rfl, rfl, _⟩ := hj
        exact ⟨false, hi⟩
      · simp only [Function.update_of_ne hji] at hj
        exact ⟨e, hj⟩
    · exact h
  | resume i =>
    simp only [State.step]
    split
    · next key f expired hi =>
      split
      · exact h
      · split
        · exact h.finish hi (by simp)
        · exact h.finish hi (by simp)
    · exact h
  | fail i =>
    simp only [State.step]
    split
    · next key f expired hi => exact h.finish hi (by simp)
    · exact h

theorem Inv.future_ne (h : Inv s) {i j f f' : ℕ} {key key' : String} {expired expired' : Bool}
    (hij : i ≠ j) (hi : s.calls i = .waiting key f expired)
    (hj : s.calls j = .waiting key' f' expired') : f ≠ f' := by
  intro hf
  subst hf
  have hkey := h.unshared key key' f (h.filed i key f expired hi) (h.filed j key' f expired' hj)
  subst hkey
  exact hij (h.alone i j key f f expired expired' hi hj)

/-- The future of a call whose timer has not fired is not cancelled. -/
def Live (s : State) : Prop :=
  ∀ i key f, s.calls i = .waiting key f false → s.client.futures f ≠ .cancelled

/-- Ending one call leaves the others live. -/
theorem Live.finish (h : Live s) {i : ℕ} {key : String} {outcome : CallState}
    (hout : ∀ k g e, outcome ≠ .waiting k g e) : Live (s.finish i key outcome) := by
  intro j k f hj
  by_cases hji : j = i
  · subst hji
    simp only [State.finish, Function.update_self] at hj
    exact absurd hj (hout k f false)
  · simp only [State.finish, Function.update_of_ne hji] at hj
    exact h j k f hj

/-- No event cancels the future of a call whose timer has not fired. -/
theorem live_step (hinv : Inv s) (h : Live s) (e : Event) : Live (s.step lower e) := by
  cases e with
  | start i name =>
    simp only [State.step]
    split
    · cases hcache : s.client.nameToId (lower name) with
      | some charId =>
        rw [start_cached hcache]
        intro j k f hj
        by_cases hji : j = i
        · subst hji
          simp at hj
        · simp only [Function.update_of_ne hji] at hj
          exact h j k f hj
      | none =>
        rw [start_new hcache]
        intro j k f hj
        by_cases hji : j = i
        · subst hji
          simp only [Function.update_self, CallState.waiting.injEq] at hj
          obtain ⟨_, rfl, _⟩ := hj
          simp
        · simp only [Function.update_of_ne hji] at hj
          have hold := hinv.created k f (hinv.filed j k f false hj)
          simp only [Function.update_of_ne (show f ≠ s.client.created by omega)]
          exact h j k f hj
    · exact h
  | reply charId name =>
    intro j k f hj hcancelled
    have hbefore := cancelled_of_resolve hcancelled
    rw [remember_futures] at hbefore
    exact h j k f hj hbefore
  | timeout i =>
    simp only [State.step]
    split
    · next key g hi =>
      intro j k f hj
      by_cases hji : j = i
      · subst hji
        simp at hj
      · simp only [Function.update_of_ne hji] at hj
        rw [cancel_of_ne _ (hinv.future_ne hji hj hi)]
        exact h j k f hj
    · exact h
  | resume i =>
    simp only [State.step]
    split
    · split
      · exact h
      · split
        · exact h.finish (by simp)
        · exact h.finish (by simp)
    · exact h
  | fail i =>
    simp only [State.step]
    split
    · exact h.finish (by simp)
    · exact h

/-! A settled call -/

/-- The reply to a waiting call settles it. -/
theorem settled_reply (h : Inv s) {charId : ℕ} {name : Bytes} {i f : ℕ}
    (hid : charId ≠ notFound) (hclear : Clear lower s (.reply charId name))
    (hi : s.calls i = .waiting (lower (latin1 name)) f false) (hlive : Live s) :
    Settled (s.step lower (.reply charId name)) i charId := by
  have hres : resolved charId = some charId := if_neg hid
  refine Or.inl ⟨_, f, hi, ?_⟩
  show (s.client.receiveLookup lower charId name).futures f = _
  rw [futures_receiveLookup, hres]
  cases hf : s.client.futures f with
  | pending =>
    refine resolve_pending ?_ ?_ _
    · rw [remember_waiters]
      exact h.filed i _ f false hi
    · rw [remember_futures, hf]
  | done r =>
    have hr : r = some charId := (hclear i f r hi hf).trans hres
    rw [resolve_of_ne_pending]
    · rw [remember_futures, hf, hr]
    · rw [remember_futures, hf]
      simp
  | cancelled => exact absurd hf (hlive i _ f hi)

/-- A call that ends leaves a settled one settled, unless it is that call. -/
theorem Settled.finish {i j charId : ℕ} (h : Settled s i charId) (hij : i ≠ j) (key : String)
    (outcome : CallState) : Settled (s.finish j key outcome) i charId := by
  unfold Settled State.finish
  simp only [Function.update_of_ne hij]
  exact h

/-- A call that waits with nothing to return yet is another one. -/
theorem Settled.ne_of_waiting {i j charId g : ℕ} {key : String} {expired : Bool}
    (h : Settled s i charId) (hj : s.calls j = .waiting key g expired)
    (hpending : ∀ key f, s.calls j = .waiting key f false → s.client.futures f = .pending) :
    i ≠ j := by
  intro hij
  subst hij
  rcases h with ⟨key', f, hi, hf⟩ | hi
  · have hnone := hpending key' f hi
    rw [hf] at hnone
    cases hnone
  · rw [hi] at hj
    cases hj

/-- A call that has its id keeps it until it returns, and returns it. -/
theorem settled_step (hinv : Inv s) {i charId : ℕ} (h : Settled s i charId) {e : Event}
    (hclear : Clear lower s e) : Settled (s.step lower e) i charId := by
  cases e with
  | start j name =>
    simp only [State.step]
    split
    · next hidle =>
      have hij : i ≠ j := by
        intro hij
        subst hij
        rcases h with ⟨key, f, hi, _⟩ | hi
        · simp [hidle] at hi
        · simp [hidle] at hi
      cases hcache : s.client.nameToId (lower name) with
      | some other =>
        rw [start_cached hcache]
        unfold Settled
        simp only [Function.update_of_ne hij]
        exact h
      | none =>
        rw [start_new hcache]
        rcases h with ⟨key, f, hi, hf⟩ | hi
        · have hold := hinv.created key f (hinv.filed i key f false hi)
          refine Or.inl ⟨key, f, ?_, ?_⟩
          · simp only [Function.update_of_ne hij, hi]
          · simp only [Function.update_of_ne (show f ≠ s.client.created by omega), hf]
        · exact Or.inr (by simp only [Function.update_of_ne hij, hi])
    · exact h
  | reply other name =>
    rcases h with ⟨key, f, hi, hf⟩ | hi
    · refine Or.inl ⟨key, f, hi, ?_⟩
      show (s.client.receiveLookup lower other name).futures f = _
      rw [futures_receiveLookup, resolve_of_ne_pending]
      · rw [remember_futures, hf]
      · rw [remember_futures, hf]
        simp
    · exact Or.inr hi
  | timeout j =>
    simp only [State.step]
    split
    · next key' g hj =>
      have hij := h.ne_of_waiting hj hclear
      rcases h with ⟨key, f, hi, hf⟩ | hi
      · refine Or.inl ⟨key, f, ?_, ?_⟩
        · simp only [Function.update_of_ne hij, hi]
        · rw [cancel_of_ne _ (hinv.future_ne hij hi hj), hf]
      · exact Or.inr (by simp only [Function.update_of_ne hij, hi])
    · exact h
  | resume j =>
    simp only [State.step]
    split
    · next key' g expired hj =>
      by_cases hij : i = j
      · -- the settled call itself runs, and returns what its future holds
        subst hij
        rcases h with ⟨key, f, hi, hf⟩ | hi
        · rw [hi] at hj
          obtain ⟨rfl, rfl, rfl⟩ := CallState.waiting.inj hj
          rw [if_neg (by simp [hf]), if_neg (by decide), hf]
          exact Or.inr (by simp [State.finish, Future.result])
        · simp [hi] at hj
      · split
        · exact h
        · split
          · exact h.finish hij key' _
          · exact h.finish hij key' _
    · exact h
  | fail j =>
    simp only [State.step]
    split
    · next key' g expired hj =>
      exact h.finish (h.ne_of_waiting hj hclear) key' _
    · exact h

end Steps

/-! Runs -/

theorem inv_start : Inv {} := by
  constructor
  · simp
  · simp
  · simp
  · simp

theorem live_start : Live {} := by
  intro i key f h
  simp at h

section Runs
variable {lower : String → String}

theorem clearRun_append {s : State} {first rest : List Event} :
    ClearRun lower s (first ++ rest) ↔
      ClearRun lower s first ∧ ClearRun lower (s.run lower first) rest := by
  induction first generalizing s with
  | nil => simp [ClearRun, State.run]
  | cons e first ih =>
    simp only [List.cons_append, ClearRun, ih, and_assoc]
    rfl

theorem inv_run {s : State} (h : Inv s) {events : List Event} (hclear : ClearRun lower s events) :
    Inv (s.run lower events) := by
  induction events generalizing s with
  | nil => exact h
  | cons e rest ih => exact ih (inv_step h hclear.1) hclear.2

theorem live_run {s : State} (hinv : Inv s) (h : Live s) {events : List Event}
    (hclear : ClearRun lower s events) : Live (s.run lower events) := by
  induction events generalizing s with
  | nil => exact h
  | cons e rest ih => exact ih (inv_step hinv hclear.1) (live_step hinv h e) hclear.2

theorem settled_run {s : State} (hinv : Inv s) {i charId : ℕ} (h : Settled s i charId)
    {events : List Event} (hclear : ClearRun lower s events) :
    Settled (s.run lower events) i charId := by
  induction events generalizing s with
  | nil => exact h
  | cons e rest ih => exact ih (inv_step hinv hclear.1) (settled_step hinv h hclear.1) hclear.2

end Runs

/-- In a clear run, a call that waits when a reply with its name and a real id is
dispatched returns that id, in every state reached from there. -/
theorem lookup_returns_reply (lower : String → String) {before after : List Event} {charId : ℕ}
    {name : Bytes} (hclear : ClearRun lower {} (before ++ .reply charId name :: after))
    (hid : charId ≠ notFound) {i f : ℕ}
    (hwaits : (State.run lower {} before).calls i = .waiting (lower (latin1 name)) f false) :
    Settled (State.run lower {} (before ++ .reply charId name :: after)) i charId := by
  obtain ⟨hbefore, hreply, hafter⟩ := clearRun_append.mp hclear
  have hinv := inv_run inv_start hbefore
  have hlive := live_run inv_start live_start hbefore
  have hsettled := settled_reply hinv hid hreply hwaits hlive
  have hrun : State.run lower {} (before ++ .reply charId name :: after) =
      ((State.run lower {} before).step lower (.reply charId name)).run lower after := by
    simp [State.run]
  rw [hrun]
  exact settled_run (inv_step hinv hreply) hsettled hafter

def bothAsked : List Event := [.start 0 "tara", .start 1 "bob"]

def bothAnswered : List Event :=
  bothAsked ++ [.reply 7 (utf8 "bob"), .reply 5 (utf8 "tara"), .resume 0, .resume 1]

theorem bothAnswered_clear : ClearRun id {} bothAnswered := by
  have htara : (State.run id {} bothAsked).calls 0 = .waiting "tara" 0 false := by decide
  have hbob : (State.run id {} bothAsked).calls 1 = .waiting "bob" 1 false := by decide
  refine ⟨fun _ _ j f expired => by simp, fun _ _ j f expired h => ?_, fun i f r hi hf => ?_,
    fun i f r hi hf => ?_, trivial, trivial, trivial⟩
  · match j with
    | 0 =>
      have hkey : "tara" = id "bob" := (CallState.waiting.inj (htara.symm.trans h)).1
      exact absurd hkey (by decide)
    | j + 1 => cases h
  · match i with
    | 0 =>
      have hkey := (CallState.waiting.inj (htara.symm.trans hi)).1
      exact absurd hkey (by decide)
    | 1 =>
      obtain rfl := (CallState.waiting.inj (hbob.symm.trans hi)).2.1
      cases hf
    | i + 2 => cases hi
  · match i with
    | 0 =>
      obtain rfl := (CallState.waiting.inj (htara.symm.trans hi)).2.1
      cases hf
    | 1 =>
      have hkey := (CallState.waiting.inj (hbob.symm.trans hi)).1
      exact absurd hkey (by decide)
    | i + 2 => cases hi

/-- Both calls return their own id. -/
theorem tara_and_bob_are_found : Settled (State.run id {} bothAnswered) 0 5 ∧
    Settled (State.run id {} bothAnswered) 1 7 := by
  have hclear := bothAnswered_clear
  have hbob : bothAnswered =
      bothAsked ++ .reply 7 (utf8 "bob") :: [.reply 5 (utf8 "tara"), .resume 0, .resume 1] := rfl
  have htara : bothAnswered = (bothAsked ++ [.reply 7 (utf8 "bob")]) ++
      .reply 5 (utf8 "tara") :: [.resume 0, .resume 1] := rfl
  constructor
  · rw [htara] at hclear ⊢
    have hwaits : (State.run id {} (bothAsked ++ [.reply 7 (utf8 "bob")])).calls 0 =
        .waiting (id (latin1 (utf8 "tara"))) 0 false := by decide
    exact lookup_returns_reply id hclear (by decide) hwaits
  · rw [hbob] at hclear ⊢
    have hwaits : (State.run id {} bothAsked).calls 1 =
        .waiting (id (latin1 (utf8 "bob"))) 1 false := by decide
    exact lookup_returns_reply id hclear (by decide) hwaits

def twiceBob : List Event := [.start 0 "bob", .start 1 "bob"]

/-- Both requests are answered, and the first call times out. -/
theorem first_lookup_lost :
    (State.run id {} twiceBob).calls 0 = .waiting (id (latin1 (utf8 "bob"))) 0 false ∧
      ¬ Settled (State.run id {} (twiceBob ++ .reply 5 (utf8 "bob") ::
        [.resume 1, .reply 5 (utf8 "bob"), .timeout 0, .resume 0])) 0 5 := by
  refine ⟨by decide, ?_⟩
  have hcall : (State.run id {} (twiceBob ++ .reply 5 (utf8 "bob") ::
      [.resume 1, .reply 5 (utf8 "bob"), .timeout 0, .resume 0])).calls 0 = .returned none := by
    decide
  rintro (⟨key, f, hwaits, _⟩ | hreturned)
  · rw [hcall] at hwaits
    cases hwaits
  · rw [hcall] at hreturned
    cases hreturned

end AoMarket.NameLookup
