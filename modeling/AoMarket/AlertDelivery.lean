import AoMarket.ServiceWrites

/-!
deliver_pending_alerts with send_tell_by_name for its sink, as runner.py wires it.
The batch is deleted before the first alert of it is sent, so an alert that is not
sent is gone. Only what went out on the connection is noted as a tell here.
-/

namespace AoMarket.AlertDelivery

open Coroutine Outcomes Relational Models Database Environment MarketRepo Polling Writes

/-- What the connection answers: the id of a character, and what becomes of a tell. -/
structure Line where
  lookupUser : ℕ → String → Except PyErr (Option ℕ)
  sendTell : ℕ → ℕ → String → Except PyErr Unit

/-- `send_tell_by_name`: a name that is not resolved ends it without a tell. -/
def sendTellByName (line : Line) (name message : String) : M Unit := do
  match ← external .sendTell fun tick => line.lookupUser tick name with
  | none => pure ()
  | some charId =>
    external .sendTell (fun tick => line.sendTell tick charId message)
      fun _ => [.tell name message]

def sendVia (send : Option (String → String → M Unit)) (player message : String) : M Unit :=
  match send with
  | some f => f player message
  | none => pure ()

def deliverVia (env : Env) (send : Option (String → String → M Unit)) (player : String) : M ℕ := do
  let alerts ← popPendingAlerts env player
  alerts.forM fun alert => sendVia send player alert.message
  return alerts.length

/-- The service's method is the one with the callback of its chat sink. -/
theorem deliverPendingAlerts_eq (env : Env) (player : String) :
    deliverPendingAlerts env player =
      deliverVia env (env.chat.sendTell.map fun send player message =>
        external .sendTell (fun tick => send tick player message)
          fun _ => [.tell player message]) player := by
  unfold deliverPendingAlerts deliverVia sendTell
  cases env.chat.sendTell with
  | none => rfl
  | some send => rfl

/-- `none` stands for a bot that is not connected. -/
def deliver (env : Env) (line : Option Line) (player : String) : M ℕ :=
  deliverVia env (line.map sendTellByName) player

/-! What is wanted, and when -/

/-- Every alert that was pending has been sent or is still pending, and none was sent twice. -/
def NoneLost (player : String) (w w' : World) : Prop :=
  ∃ sent : List MarketPendingAlert,
    w'.log = w.log ++ sent.map (fun a => .tell player a.message) ∧
    (sent.map MarketPendingAlert.id).Nodup ∧
    (∀ a ∈ sent, a ∈ w.db.pendingAlerts ∧ a.player = player) ∧
    ∀ a ∈ w.db.pendingAlerts, a.player = player → a ∈ sent ∨ a ∈ w'.db.pendingAlerts

def queueOf (db : Db) (player : String) : List MarketPendingAlert :=
  (db.pendingAlerts.filter fun a => a.player == player).insertionSort
    fun a b => a.createdAt ≤ b.createdAt

def Taken (env : Env) (player : String) (w : World) : Prop :=
  env.dbFault w.tick = none ∧ env.storable player = true ∧ env.dbFault (w.tick + 1) = none

/-- Each of the alerts goes out, the first lookup being made at the tick. -/
def AllSent (line : Option Line) (player : String) : ℕ → List MarketPendingAlert → Prop
  | _, [] => True
  | tick, a :: rest =>
    (∃ l charId, line = some l ∧ l.lookupUser tick player = .ok (some charId) ∧
      l.sendTell (tick + 1) charId a.message = .ok ()) ∧ AllSent line player (tick + 2) rest

/-- The alerts that go out: an exception ends the sending, a name that is not resolved
only skips the alert. -/
def transmitted (line : Option Line) (player : String) :
    ℕ → List MarketPendingAlert → List MarketPendingAlert
  | _, [] => []
  | tick, a :: rest =>
    match line with
    | none => []
    | some l =>
      match l.lookupUser tick player with
      | .error _ => []
      | .ok none => transmitted line player (tick + 1) rest
      | .ok (some charId) =>
        match l.sendTell (tick + 1) charId a.message with
        | .error _ => []
        | .ok _ => a :: transmitted line player (tick + 2) rest

section Sending
variable {line : Option Line} {player : String}

/-- Only alerts that were taken go out, each of them once. -/
theorem transmitted_sublist (tick : ℕ) (alerts : List MarketPendingAlert) :
    (transmitted line player tick alerts).Sublist alerts := by
  induction alerts generalizing tick with
  | nil => exact List.Sublist.refl _
  | cons a rest ih =>
    unfold transmitted
    split
    · exact List.nil_sublist _
    · split
      · exact List.nil_sublist _
      · exact (ih _).cons a
      · split
        · exact List.nil_sublist _
        · exact (ih _).cons_cons a

theorem transmitted_none (tick : ℕ) (alerts : List MarketPendingAlert) :
    transmitted none player tick alerts = [] := by
  cases alerts <;> rfl

/-- All that was taken goes out exactly when each alert does, in its turn. -/
theorem transmitted_eq_iff (tick : ℕ) (alerts : List MarketPendingAlert) :
    transmitted line player tick alerts = alerts ↔ AllSent line player tick alerts := by
  induction alerts generalizing tick with
  | nil => simp [transmitted, AllSent]
  | cons a rest ih =>
    have hlong : ∀ t, transmitted line player t rest ≠ a :: rest := by
      intro t h
      have hsub : (transmitted line player t rest).Sublist rest := transmitted_sublist t rest
      have hlen := hsub.length_le
      rw [h, List.length_cons] at hlen
      omega
    unfold transmitted AllSent
    cases line with
    | none => simp
    | some l =>
      dsimp only
      cases hlookup : l.lookupUser tick player with
      | error e => simp [hlookup]
      | ok found =>
        cases found with
        | none => simp [hlookup, hlong]
        | some charId =>
          cases hsend : l.sendTell (tick + 1) charId a.message with
          | error e => simp [hlookup, hsend]
          | ok u => simp [hlookup, hsend, ih]

/-- The sends note what goes out and leave the database alone. -/
theorem run_sends (line : Option Line) (player : String) (alerts : List MarketPendingAlert)
    (w : World) :
    ∃ r tick, (alerts.forM fun a => sendVia (line.map sendTellByName) player a.message).run w =
      (r, { db := w.db, tick := tick,
            log := w.log ++
              (transmitted line player w.tick alerts).map fun a => .tell player a.message }) := by
  induction alerts generalizing w with
  | nil => exact ⟨.ok (), w.tick, by simp [transmitted]⟩
  | cons a rest ih =>
    cases line with
    | none =>
      obtain ⟨r, tick, hrest⟩ := ih w
      rw [transmitted_none] at hrest
      exact ⟨r, tick, hrest⟩
    | some l =>
      show ∃ r tick, (sendTellByName l player a.message >>= fun _ => rest.forM fun a =>
        sendVia (some (sendTellByName l)) player a.message).run w = _
      change ∀ w, ∃ r tick, (rest.forM fun a =>
        sendVia (some (sendTellByName l)) player a.message).run w = _ at ih
      generalize (rest.forM fun a => sendVia (some (sendTellByName l)) player a.message) = others
        at ih ⊢
      unfold sendTellByName transmitted
      rw [Coro.bind_assoc]
      cases hlookup : l.lookupUser w.tick player with
      | error e =>
        rw [Coro.run_bind_error (run_external_error hlookup)]
        exact ⟨.error e, w.tick + 1, by simp [World.next, hlookup]⟩
      | ok found =>
        rw [Coro.run_bind_ok (run_external_ok hlookup)]
        cases found with
        | none =>
          obtain ⟨r, tick, hrest⟩ := ih w.next
          exact ⟨r, tick, by simpa [World.next, hlookup] using hrest⟩
        | some charId =>
          cases hsend : l.sendTell (w.tick + 1) charId a.message with
          | error e =>
            refine ⟨.error e, w.tick + 2, ?_⟩
            erw [Coro.run_bind_error (run_external_error hsend)]
            simp [World.next, hlookup, hsend]
          | ok u =>
            obtain ⟨r, tick, hrest⟩ := ih { w with
              tick := w.tick + 2, log := w.log ++ [.tell player a.message] }
            refine ⟨r, tick, ?_⟩
            erw [Coro.run_bind_ok (run_external_ok hsend)]
            simpa [World.next, hlookup, hsend] using hrest

/-! The batch -/

variable {env : Env} {w : World}

/-- The select fails and nothing is taken, or it returns the player's queue. -/
theorem run_selectAlerts (env : Env) (player : String) (w : World) :
    (∃ e, (query env .selectAlerts fun _ db => do
        text env player
        return (db.pendingAlerts.filter fun a => a.player == player).insertionSort
          fun a b => a.createdAt ≤ b.createdAt).run w = (.error e, w.next) ∧ ¬ Taken env player w) ∨
      (query env .selectAlerts fun _ db => do
        text env player
        return (db.pendingAlerts.filter fun a => a.player == player).insertionSort
          fun a b => a.createdAt ≤ b.createdAt).run w = (.ok (queueOf w.db player), w.next) ∧
        env.dbFault w.tick = none ∧ env.storable player = true := by
  unfold Taken
  cases hfault : env.dbFault w.tick with
  | some e => exact Or.inl ⟨e, by simp [query, statement, hfault], by simp⟩
  | none =>
    by_cases htext : env.storable player = true
    · refine Or.inr ⟨?_, rfl, htext⟩
      rw [run_query_ok hfault (a := queueOf w.db player) (by simp [text, htext]; rfl)]
      simp [World.next]
    · refine Or.inl ⟨.database, ?_, by simp [htext]⟩
      rw [run_query_error hfault (e := .database) (by simp [text, htext])]

/-- An empty queue is left alone. -/
theorem run_pop_nil (hqueue : queueOf w.db player = []) :
    ∃ r, (popPendingAlerts env player).run w = (r, w.next) ∧ ∀ alerts, r = .ok alerts → alerts = [] := by
  unfold popPendingAlerts
  rcases run_selectAlerts env player w with ⟨e, hselect, _⟩ | ⟨hselect, _⟩
  · exact ⟨.error e, Coro.run_bind_error hselect _, fun _ h => nomatch h⟩
  · rw [hqueue] at hselect
    refine ⟨.ok [], Coro.run_bind_ok hselect _, fun alerts h => ?_⟩
    exact (Except.ok.inj h).symm

/-- A queue that is taken is deleted. -/
theorem run_pop_taken (hqueue : queueOf w.db player ≠ []) (htaken : Taken env player w) :
    (popPendingAlerts env player).run w = (.ok (queueOf w.db player),
      { db := w.db.deleteAlerts fun a =>
          ((queueOf w.db player).map MarketPendingAlert.id).contains a.id
        tick := w.tick + 2
        log := w.log }) := by
  unfold popPendingAlerts
  rcases run_selectAlerts env player w with ⟨_, _, hnot⟩ | ⟨hselect, _⟩
  · exact absurd htaken hnot
  · rw [Coro.run_bind_ok hselect, if_pos hqueue]
    have hfault : env.dbFault w.next.tick = none := htaken.2.2
    rw [Coro.run_bind_ok (run_statement_ok hfault rfl)]
    simp [World.next]

theorem run_pop_not_taken (hqueue : queueOf w.db player ≠ []) (htaken : ¬ Taken env player w) :
    ∃ e tick, (popPendingAlerts env player).run w = (.error e, { w with tick := tick }) := by
  unfold popPendingAlerts
  rcases run_selectAlerts env player w with
    ⟨e, hselect, _⟩ | ⟨hselect, hup, htext⟩
  · exact ⟨e, w.tick + 1, Coro.run_bind_error hselect _⟩
  · rw [Coro.run_bind_ok hselect, if_pos hqueue]
    cases hfault : env.dbFault (w.tick + 1) with
    | none => exact absurd ⟨hup, htext, hfault⟩ htaken
    | some e =>
      refine ⟨e, w.tick + 2, Coro.run_bind_error ?_ _⟩
      simp [statement, World.next, hfault]

theorem mem_queueOf {db : Db} {a : MarketPendingAlert} :
    a ∈ queueOf db player ↔ a ∈ db.pendingAlerts ∧ a.player = player := by
  unfold queueOf
  rw [(List.perm_insertionSort _ _).mem_iff]
  simp

theorem nodup_queueOf (db : Db) (player : String) :
    ((queueOf db player).map MarketPendingAlert.id).Nodup := by
  have hperm := (List.perm_insertionSort (fun a b : MarketPendingAlert => a.createdAt ≤ b.createdAt)
    (db.pendingAlerts.filter fun a => a.player == player)).map MarketPendingAlert.id
  refine hperm.nodup_iff.mpr ?_
  exact db.sound.alert_key.sublist List.filter_sublist

/-- Nothing happened to the queue. -/
theorem noneLost_of_same {w' : World} (hdb : w'.db = w.db) (hlog : w'.log = w.log) :
    NoneLost player w w' :=
  ⟨[], by simp [hlog], by simp, by simp, fun a ha _ => Or.inr (by rwa [hdb])⟩

/-- A taken batch is not lost exactly when all of it went out. -/
theorem noneLost_taken {w' : World} {tick : ℕ}
    (hdb : ∀ a ∈ w'.db.pendingAlerts, a ∉ queueOf w.db player)
    (hlog : w'.log = w.log ++ (transmitted line player tick (queueOf w.db player)).map
      fun a => .tell player a.message) :
    NoneLost player w w' ↔ AllSent line player tick (queueOf w.db player) := by
  rw [← transmitted_eq_iff]
  constructor
  · intro ⟨sent, hsent, hnodup, _, hall⟩
    -- As many tells as alerts: the transmitted ones are a sublist as long as the queue.
    have hcover : queueOf w.db player ⊆ sent := by
      intro a ha
      obtain ⟨hmem, hplayer⟩ := mem_queueOf.mp ha
      rcases hall a hmem hplayer with h | h
      · exact h
      · exact absurd ha (hdb a h)
    have hqueue : (queueOf w.db player).Nodup := (nodup_queueOf w.db player).of_map _
    have hle : (queueOf w.db player).length ≤ sent.length :=
      (List.subperm_of_subset hqueue hcover).length_le
    rw [hlog] at hsent
    have hlen := congrArg List.length (List.append_cancel_left hsent)
    rw [List.length_map, List.length_map] at hlen
    exact (transmitted_sublist tick _).eq_of_length_le (by omega)
  · intro hall
    rw [hall] at hlog
    refine ⟨queueOf w.db player, hlog, nodup_queueOf w.db player, fun a ha => mem_queueOf.mp ha, ?_⟩
    exact fun a ha hplayer => Or.inl (mem_queueOf.mpr ⟨ha, hplayer⟩)

end Sending

/-- Delivering the pending alerts loses none and repeats none exactly when the batch is not
taken off the queue or every alert of it goes out. -/
theorem delivery_loses_none_iff (env : Env) (line : Option Line) (player : String) (w : World) :
    NoneLost player w ((deliver env line player).run w).2 ↔
      (Taken env player w → AllSent line player (w.tick + 2) (queueOf w.db player)) := by
  unfold deliver deliverVia
  by_cases hqueue : queueOf w.db player = []
  · obtain ⟨r, hpop, hnone⟩ := run_pop_nil hqueue
    have hall : AllSent line player (w.tick + 2) (queueOf w.db player) := by
      rw [hqueue]
      exact trivial
    refine iff_of_true ?_ fun _ => hall
    cases r with
    | error e =>
      rw [Coro.run_bind_error hpop]
      exact noneLost_of_same rfl rfl
    | ok alerts =>
      rw [Coro.run_bind_ok hpop, hnone alerts rfl]
      exact noneLost_of_same rfl rfl
  · by_cases htaken : Taken env player w
    · rw [Coro.run_bind_ok (run_pop_taken hqueue htaken)]
      obtain ⟨r, tick, hsends⟩ := run_sends line player (queueOf w.db player)
        { db := w.db.deleteAlerts fun a =>
            ((queueOf w.db player).map MarketPendingAlert.id).contains a.id
          tick := w.tick + 2
          log := w.log : World }
      rw [Coro.run_bind_pure, hsends, noneLost_taken (fun a ha hqueued => ?_) rfl]
      · exact ⟨fun h _ => h, fun h => h htaken⟩
      · have hdeleted := (mem_deleteRows.mp ha).2
        rw [List.contains_iff_mem.mpr (List.mem_map_of_mem hqueued)] at hdeleted
        cases hdeleted
    · obtain ⟨e, tick, hpop⟩ := run_pop_not_taken hqueue htaken
      rw [Coro.run_bind_error hpop]
      exact iff_of_true (noneLost_of_same rfl rfl) fun h => absurd h htaken

def twoPending : World where
  db := (Db.empty.insertAlert "Tara" 1 "first" 0).insertAlert "Tara" 2 "second" 1

def breaking : Line where
  lookupUser _ _ := .ok (some 7)
  sendTell tick _ _ := if tick = 5 then .error .connection else .ok ()

/-- The second alert is neither sent nor pending. -/
theorem second_alert_lost :
    ¬ ∀ env line player w, NoneLost player w ((deliver env line player).run w).2 := by
  intro h
  obtain ⟨sent, hlog, _, _, hall⟩ := h .calm (some breaking) "Tara" twoPending
  have hnoted : ((deliver .calm (some breaking) "Tara").run twoPending).2.log =
      [.tell "Tara" "first"] := rfl
  have hone : sent.length = 1 := by
    rw [hnoted] at hlog
    simpa [twoPending] using (congrArg List.length hlog).symm
  obtain ⟨a, rfl⟩ := List.length_eq_one_iff.mp hone
  have hgone : ((deliver .calm (some breaking) "Tara").run twoPending).2.db.pendingAlerts = [] := rfl
  rw [hgone] at hall
  have hsent : ∀ b ∈ twoPending.db.pendingAlerts, b = a := by
    intro b hb
    have hplayer : ∀ b ∈ twoPending.db.pendingAlerts, b.player = "Tara" := by decide
    simpa using hall b hb (hplayer b hb)
  have hfirst := hsent ⟨0, "Tara", 1, "first", 0⟩ (by decide)
  have hsecond := hsent ⟨1, "Tara", 2, "second", 1⟩ (by decide)
  cases hfirst.trans hsecond.symm

end AoMarket.AlertDelivery
