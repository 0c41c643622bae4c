import AoMarket.CheckThenAct
import AoMarket.ServiceWrites
import Mathlib.Data.Fintype.Basic

/-!
The subscription limit when several calls of subscribe run at once. One call
counts the player's rows and inserts its own five statements later; what the
others insert in between is not counted.
-/

namespace AoMarket.SubscriptionLimit

open Coroutine Interleaving Relational Models Database Environment SettingsRepo MarketService Writes
  ServiceWrites CheckThenAct
open MarketRepo hiding register logAction clearFilter

variable {env : Env} {α : Type}

/-! The calls of a subscription besides the count and the insert -/

/-- Neither the count nor the insert. -/
def Aside (c : Call) : Prop := c ≠ .addSubscription ∧ c ≠ .countSubscriptions

theorem aside_get (key : String) : (get env key).Calls Aside :=
  Coro.Calls.bind (calls_query (by simp [Aside])) fun _ => Coro.Calls.ofExcept _

theorem aside_getBool (key : String) : (getBool env key).Calls Aside := by
  refine Coro.Calls.bind (aside_get key) fun v => ?_
  cases v with
  | bool b => exact Coro.Calls.pure b
  | _ => exact Coro.Calls.throw _

theorem aside_getInt (key : String) : (getInt env key).Calls Aside := by
  refine Coro.Calls.bind (aside_get key) fun v => ?_
  cases v with
  | int n => exact Coro.Calls.pure n
  | _ => exact Coro.Calls.throw _

theorem aside_getItem (aoid : ℤ) : (getItem env aoid).Calls Aside :=
  calls_external (by simp [Aside])

theorem aside_sendPrivgroup (message : String) : (sendPrivgroup env message).Calls Aside := by
  unfold sendPrivgroup
  split
  · exact calls_external (by simp [Aside])
  · exact Coro.Calls.pure _

/-- Announcing a subscription neither counts nor inserts. -/
theorem aside_announce (player action : String) (aoid : Option ℤ) :
    (announce env player action aoid).Calls Aside := by
  refine Coro.Calls.bind (aside_getBool _) fun on => ?_
  cases on with
  | false => exact Coro.Calls.pure _
  | true =>
    cases aoid with
    | none => exact aside_sendPrivgroup _
    | some a =>
      refine Coro.Calls.bind (aside_getItem a) fun item => ?_
      cases item with
      | none => exact aside_sendPrivgroup _
      | some i => exact aside_sendPrivgroup _

theorem aside_logAction (player action : String) (aoid : Option ℤ) :
    (logAction env player action aoid).Calls Aside :=
  Coro.Calls.bind (calls_statement (by simp [Aside])) fun _ => aside_announce _ _ _

theorem aside_announceTracked (itemName : String) :
    (announceTracked env itemName false).Calls Aside := by
  refine Coro.Calls.bind (aside_getBool _) fun on => ?_
  cases on with
  | false => exact Coro.Calls.pure _
  | true => exact aside_sendPrivgroup _

theorem aside_watchItem (aoid : ℤ) (name : String) (ql : ℤ) (icon : Option ℤ) :
    (watchItem env aoid name ql icon false).Calls Aside := by
  refine Coro.Calls.bind ?_ fun isNew => ?_
  · refine Coro.Calls.bind (calls_query (by simp [Aside])) fun _ => ?_
    exact Coro.Calls.bind (calls_statement (by simp [Aside])) fun _ => Coro.Calls.pure _
  · cases isNew with
    | false => exact Coro.Calls.pure _
    | true => exact Coro.Calls.bind (aside_announceTracked name) fun _ => Coro.Calls.pure _

/-! The rows of a player -/

def rows (player : String) (w : World) : ℤ := (subscriptionsOf w.db player).length

/-- The setting is stored as `limit`. -/
def LimitIs (env : Env) (limit : ℤ) (w : World) : Prop :=
  readSetting env w.db "MaxSubscriptionsPerPlayer" = .ok (.int limit)

/-- The writes that add no row of the player and leave the settings alone. -/
def AddsNone (player : String) (op : Write) : Prop :=
  op = .insertAction ∨ (∃ aoid, op = .upsertWatch aoid) ∨
    ∃ other aoid, op = .insertSubscription other aoid ∧ other ≠ player

section Rows
variable {player : String} {limit : ℤ} {w w' : World}

theorem limitIs_of_settings (h : w'.db.settings = w.db.settings) (hw : LimitIs env limit w) :
    LimitIs env limit w' := by
  unfold LimitIs readSetting at *
  rwa [h]

theorem rows_of_effect {op : Write} {note : List Event} (hop : AddsNone player op)
    (h : Effect op w.db w'.db note) : rows player w' = rows player w := by
  unfold rows subscriptionsOf
  by_cases htouches : TouchesSubscriptions op
  · rcases hop with rfl | ⟨aoid, rfl⟩ | ⟨other, aoid, rfl, hne⟩
    · exact absurd htouches (by simp [TouchesSubscriptions])
    · exact absurd htouches (by simp [TouchesSubscriptions])
    · generalize w'.db = db' at h ⊢
      cases h with
      | insertSubscription row hinsert =>
        rw [Db.insertSubscription_eq_some hinsert]
        simp only
        rw [filter_insert (by simpa using hne)]
  · rw [h.subscriptions_eq htouches]

theorem addsNone_ne_setting {op : Write} (hop : AddsNone player op) : op ≠ .setting := by
  rcases hop with rfl | ⟨aoid, rfl⟩ | ⟨other, aoid, rfl, _⟩ <;> simp

theorem step_of_addsNone (h : Steps (AddsNone player) w w') (hw : LimitIs env limit w) :
    LimitIs env limit w' ∧ rows player w' ≤ rows player w := by
  obtain ⟨_, note, _, ⟨hdb, _⟩ | ⟨op, hop, heffect⟩⟩ := h
  · refine ⟨limitIs_of_settings (by rw [hdb]) hw, ?_⟩
    unfold rows
    rw [hdb]
  · refine ⟨limitIs_of_settings (heffect.settings_eq (addsNone_ne_setting hop)) hw, ?_⟩
    exact (rows_of_effect hop heffect).le

end Rows

/-! One call of subscribe -/

section Programs
variable {player : String} {limit : ℤ}

theorem steady_of_keeps {p : M α} (h : Keeps (AddsNone player) p) :
    Steady (LimitIs env limit) (rows player) p :=
  Coro.Always.mono h.always (fun _ hs => hs) (fun _ _ _ hs hstep => step_of_addsNone hstep hs)
    fun _ _ => trivial

/-- A part of the call without count and insert, with what its values satisfy. -/
theorem quiet_of_keeps {p : M α} {Q : α → Prop} (h : Keeps (AddsNone player) p)
    (hcalls : p.Calls Aside) (hvalue : p.Always (LimitIs env limit) (fun _ _ _ => True) Q) :
    p.Always (LimitIs env limit)
      (fun c s s' => c ≠ .addSubscription ∧ c ≠ .countSubscriptions ∧
        LimitIs env limit s' ∧ rows player s' ≤ rows player s) Q := by
  refine Coro.Always.mono ((h.always.and hcalls.always).and hvalue) (fun _ hs => hs) ?_
    (fun _ hv => hv.2)
  rintro c s s' hs ⟨⟨hstep, haside⟩, _⟩
  exact ⟨haside.1, haside.2, step_of_addsNone hstep hs⟩

theorem anyValue (p : M α) :
    p.Always (LimitIs env limit) (fun _ _ _ => True) fun _ => True := by
  induction p with
  | ret a => exact Coro.Always.pure trivial
  | raise e => exact Coro.Always.throw e
  | step call u k ih => exact Coro.always_step.mpr fun s _ => ⟨trivial, ih s⟩

/-- Where the setting is `limit`, that is what is read. -/
theorem getInt_limit :
    (getInt env "MaxSubscriptionsPerPlayer").Always (LimitIs env limit) (fun _ _ _ => True)
      fun n => n = limit := by
  refine Coro.Always.bind (Q := fun v => v = .int limit) ?_ ?_
  · unfold SettingsRepo.get
    refine Coro.Always.bind
      (Q := fun row => deserialize env.py row.value row.valueType = .ok (.int limit)) ?_ ?_
    · apply Coro.Always.act
      · exact fun _ _ => trivial
      · intro w hw row hrow
        have hrun : (getRow env "MaxSubscriptionsPerPlayer").run w =
            (.ok row, ((getRow env "MaxSubscriptionsPerPlayer").run w).2) := by
          refine Prod.ext ?_ rfl
          unfold getRow query statement
          rw [Coro.run_act]
          exact hrow
        obtain ⟨hread, _⟩ := run_query_eq_ok hrun
        obtain ⟨u, htext, hread⟩ := except_bind_eq_ok.mp hread
        unfold LimitIs readSetting at hw
        rw [htext] at hw
        cases hlookup : lookup Setting.key "MaxSubscriptionsPerPlayer" w.db.settings with
        | none =>
          rw [hlookup] at hread
          cases hread
        | some r =>
          rw [hlookup] at hread hw
          cases hread
          exact hw
    · intro row hrow
      apply Coro.Always.ofExcept
      intro v hv
      rw [hrow] at hv
      exact (Except.ok.inj hv).symm
  · rintro v rfl
    exact Coro.Always.pure rfl

theorem addsNone_watchItem (aoid : ℤ) (name : String) (ql : ℤ) (icon : Option ℤ) :
    Keeps (AddsNone player) (watchItem env aoid name ql icon false) :=
  keeps_watchItem (Or.inr (Or.inl ⟨aoid, rfl⟩)) name ql icon false

theorem addsNone_logAction (q action : String) (aoid : Option ℤ) :
    Keeps (AddsNone player) (logAction env q action aoid) :=
  keeps_logAction (Or.inl rfl) q action aoid

/-- The insert adds one row of the player at most. -/
theorem addSubscription_once (aoid : ℤ) {w : World} (hw : LimitIs env limit w) :
    LimitIs env limit ((addSubscription env player aoid).run w).2 ∧
      rows player ((addSubscription env player aoid).run w).2 ≤ rows player w + 1 := by
  unfold addSubscription
  rcases run_statement_cases w with ⟨e, hrun⟩ | ⟨_, u, db, note, hf, hrun⟩
  · rw [hrun]
    refine ⟨hw, ?_⟩
    show rows player w ≤ rows player w + 1
    omega
  · rw [hrun]
    obtain ⟨db₁, hinsert, hf⟩ := except_bind_eq_ok.mp hf
    cases hf
    have htables := Db.insertSubscription_eq_some (orRefused_eq_ok hinsert)
    refine ⟨limitIs_of_settings (by simp only [htables]) hw, ?_⟩
    unfold rows subscriptionsOf
    simp only [htables, List.filter_append, List.length_append]
    have hone : ([({ player := player, aoid := aoid, createdAt := env.clock w.tick } :
        MarketSubscription)].filter fun s => s.player == player).length ≤ 1 :=
      List.length_filter_le _ _
    push_cast
    omega

theorem countSubscriptions_ok {w : World} {count : ℕ}
    (h : ((countSubscriptions env player).run w).1 = .ok count) : (count : ℤ) = rows player w := by
  have hrun : (countSubscriptions env player).run w =
      (.ok count, ((countSubscriptions env player).run w).2) := Prod.ext h rfl
  obtain ⟨hread, _⟩ := run_query_eq_ok hrun
  obtain ⟨_, _, hread⟩ := except_bind_eq_ok.mp hread
  cases hread
  rfl

/-- The part from the limit check on. -/
theorem checks_subscribeWithin (aoid : ℤ) (item : Item) :
    Checks (LimitIs env limit) (rows player) limit .countSubscriptions .addSubscription
      (subscribeWithin env player aoid item) := by
  refine Checks.bind (quiet_of_keeps (keeps_getInt _) (aside_getInt _) getInt_limit)
    fun n hn => ?_
  subst hn
  refine checks_check rfl (by simp) ?_ ?_ ?_
  · intro w hw
    have hdb : ((countSubscriptions env player).run w).2.db = w.db :=
      Keeps.db_eq (keeps_countSubscriptions player) w
    unfold LimitIs rows at *
    rw [hdb]
    exact ⟨hw, le_refl _⟩
  · intro w count _ hcount hroom
    have hrows := countSubscriptions_ok hcount
    rw [if_neg (by omega)]
    refine ActsOnce.bind ?_ fun _ => ?_
    · have hwatch := @addsNone_watchItem env player aoid item.name item.ql item.icon
      refine Coro.Always.mono (quiet_of_keeps hwatch (aside_watchItem _ _ _ _) (anyValue _))
        (fun _ hw => hw) ?_ fun _ => id
      exact fun c s s' _ hstep => ⟨hstep.1, hstep.2.2⟩
    · refine actsOnce_act rfl (fun w hw => addSubscription_once aoid hw) fun _ => ?_
      apply steady_of_keeps
      exact Coro.Frames.bind (addsNone_logAction _ _ _) fun _ => Coro.Frames.pure _
  · intro w count _ hcount hfull
    have hrows := countSubscriptions_ok hcount
    rw [if_pos (by omega)]
    rfl

/-- A call of subscribe for the player checks the limit before it inserts. -/
theorem checks_subscribe (aoid : ℤ) :
    Checks (LimitIs env limit) (rows player) limit .countSubscriptions .addSubscription
      (subscribe env player aoid) := by
  refine Checks.bind (quiet_of_keeps (keeps_getItem aoid) (aside_getItem aoid) (anyValue _))
    fun item _ => ?_
  cases item with
  | none => trivial
  | some item =>
    have hregistered : (isRegistered env player).Calls Aside :=
      Coro.Calls.bind (calls_query (by simp [Aside])) fun _ => Coro.Calls.pure _
    refine Checks.bind (quiet_of_keeps (keeps_isRegistered player) hregistered (anyValue _))
      fun registered _ => ?_
    cases registered with
    | false =>
      exact Checks.bind (quiet_of_keeps (addsNone_logAction _ _ _) (aside_logAction _ _ _)
        (anyValue _)) fun _ _ => trivial
    | true =>
      have hsub : (getSubscription env player aoid).Calls Aside := calls_query (by simp [Aside])
      refine Checks.bind (quiet_of_keeps (keeps_getSubscription player aoid) hsub (anyValue _))
        fun sub _ => ?_
      cases sub with
      | some s => trivial
      | none => exact checks_subscribeWithin aoid item

/-- A call for another player adds no row of this one. -/
theorem steady_subscribe {other : String} (hne : other ≠ player) (aoid : ℤ) :
    Steady (LimitIs env limit) (rows player) (subscribe env other aoid) := by
  apply steady_of_keeps
  apply keeps_subscribe
  · exact Or.inr (Or.inl ⟨aoid, rfl⟩)
  · exact Or.inr (Or.inr ⟨other, aoid, rfl, hne⟩)
  · exact Or.inl rfl

end Programs

/-! All calls together -/

section Together
variable {ι : Type} [Fintype ι] [DecidableEq ι]

/-- A call of subscribe: who asks for which item. -/
abbrev Watches (ι : Type) := ι → String × ℤ

def callsOf (calls : Watches ι) (player : String) : Finset ι :=
  Finset.univ.filter fun i => (calls i).1 = player

def atStart (env : Env) (w : World) (calls : Watches ι) : Pool ι Call World PyErr Item :=
  Pool.start w fun i => subscribe env (calls i).1 (calls i).2

/-- The player's rows stay within the limit, or what they were at the start, in every state
of every interleaving in which each count finds the limit reached, or room for one more row
and for those of the player's calls that have counted and are still to insert. -/
theorem limit_kept {env : Env} {w : World} {limit : ℤ} {player : String} {calls : Watches ι}
    {schedule : List ι} (hlimit : LimitIs env limit w)
    (hroom : Pool.Respects
      (RoomLeft (rows player) limit .countSubscriptions .addSubscription (callsOf calls player))
      (atStart env w calls) schedule) :
    rows player ((atStart env w calls).exec schedule).shared ≤ max limit (rows player w) := by
  apply exec_bounded hlimit _ _ hroom
  · intro i hi
    apply steady_subscribe
    simpa [callsOf] using hi
  · intro i hi
    have hplayer : (calls i).1 = player := by simpa [callsOf] using hi
    rw [hplayer]
    exact checks_subscribe _

end Together

def stocked : Env := { Env.calm with getItem := fun _ aoid => .ok (some ⟨aoid, "Ring", 10, none⟩) }

def oneAllowed : World where
  db :=
    { toTables :=
        { users := [⟨"Tara", false⟩]
          settings := [⟨"MaxSubscriptionsPerPlayer", "1", .int⟩,
            ⟨"LogToPrivateChannel", "false", .bool⟩] }
      sound := by constructor <;> simp [Keyed, Refers] }

def twoCalls : Watches (Fin 2) := fun i => ("Tara", i + 1)

/-- One call after the other. -/
theorem limit_kept_in_turn :
    rows "Tara" ((atStart stocked oneAllowed twoCalls).exec
      (List.replicate 11 0 ++ List.replicate 11 1)).shared ≤ max 1 (rows "Tara" oneAllowed) := by
  apply limit_kept
  · show readSetting _ _ _ = _
    rfl
  · decide +kernel

/-- Both calls at once: both count no row, and Tara watches two items. -/
theorem limit_exceeded :
    LimitIs stocked 1 oneAllowed ∧
      ¬ rows "Tara" ((atStart stocked oneAllowed twoCalls).exec
        (List.replicate 11 [0, 1]).flatten).shared ≤ max 1 (rows "Tara" oneAllowed) := by
  refine ⟨?_, by decide +kernel⟩
  show readSetting _ _ _ = _
  rfl

end AoMarket.SubscriptionLimit
