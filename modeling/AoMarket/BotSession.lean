import AoMarket.ReadLoop
import AoMarket.Runner

/-!
MarketBot on top of the chat client. start() sets on_tell and no other callback,
and the reader awaits it inline: a tell whose handling raises is the last packet
the bot hears, and a logon packet changes a dictionary and nothing else.
-/

namespace AoMarket.BotSession

open Coroutine Relational Models Database Environment Packet Connection ChatClient ReadLoop Runner

def startHandlers (env : Env) : Handlers World where
  onTell := some fun c senderId message w =>
    (handleTell env c.idToName ⟨senderId, message⟩).run w

def tellOf (pkt : InboundPacket) : Option InboundTell :=
  if pkt.type = msgPrivate then
    match pkt.args with
    | [.int senderId, .str message, _] => some ⟨senderId, latin1 message⟩
    | _ => none
  else none

/-- The tell handler is called for a packet with a tell, and for no other. -/
theorem dispatch_notice {lower : String → String} {c c' : Client} {pkt : InboundPacket}
    {notice : Option Notice} (h : ChatClient.dispatch lower c pkt = .ok (c', notice)) :
    (∃ tell, tellOf pkt = some tell ∧ notice = some (.tell tell.senderId tell.message) ∧ c' = c) ∨
      tellOf pkt = none ∧ ∀ senderId message, notice ≠ some (.tell senderId message) := by
  unfold ChatClient.dispatch at h
  unfold tellOf
  by_cases htell : pkt.type = msgPrivate
  · rw [if_pos htell] at h ⊢
    generalize pkt.args = args at h ⊢
    split at h
    · next senderId message _ =>
      cases h
      exact Or.inl ⟨⟨senderId, latin1 message⟩, rfl, rfl, rfl⟩
    · cases h
  · rw [if_neg htell] at h ⊢
    refine Or.inr ⟨rfl, ?_⟩
    intro senderId message hnotice
    subst hnotice
    repeat' split at h
    all_goals cases h

section Bot
variable {env : Env} {lower : String → String} {around : Surroundings World}

def Handled (env : Env) (s : Session World) (pkt : InboundPacket) : Prop :=
  ∀ tell, tellOf pkt = some tell → ((handleTell env s.client.idToName tell).run s.state).1 = .ok ()

/-- A packet is dispatched without an exception exactly when its tell, if it carries
one, is handled. -/
theorem dispatch_ok_iff_handled {f : Frame} {pkt : InboundPacket} (hf : f.packet = some pkt)
    (s : Session World) :
    (s.dispatch lower (startHandlers env) pkt).1 = .ok () ↔ Handled env s pkt := by
  obtain ⟨⟨c', notice⟩, hr⟩ := dispatch_ok lower s.client (Frame.decode_of_packet hf)
  unfold Session.dispatch Handled
  simp only [hr]
  rcases dispatch_notice hr with ⟨tell, htell, rfl, rfl⟩ | ⟨hnone, hnotice⟩
  · rw [htell]
    constructor
    · intro hok tell' htell'
      cases htell'
      exact hok
    · exact fun hall => hall tell rfl
  · rw [hnone]
    refine ⟨fun _ _ hsome => absurd hsome (by simp), fun _ => ?_⟩
    match notice, hnotice with
    | some (.tell senderId message), hno => exact absurd rfl (hno senderId message)
    | some (.privgroup _ _), _ => rfl
    | some (.buddy _ _), _ => rfl
    | none, _ => rfl

/-- Every tell the reader comes to is handled without an exception. -/
def TellsHandled (env : Env) (lower : String → String) (around : Surroundings World) :
    ℕ → Session World → List Frame → Prop
  | _, _, [] => True
  | turn, s, f :: rest =>
    around.stopping turn = false → ∀ pkt, f.packet = some pkt →
      Handled env (around.wait turn s) pkt ∧
        TellsHandled env lower around (turn + 1)
          (turnOf lower (startHandlers env) around turn pkt s).2 rest

/-- Over frames that decode the reader goes on exactly when every tell is handled. -/
theorem goes_iff_tellsHandled {frames : List Frame} (hdec : ∀ f ∈ frames, ∃ pkt, f.packet = some pkt)
    (turn : ℕ) (s : Session World) :
    Goes lower (startHandlers env) around turn s frames ↔
      TellsHandled env lower around turn s frames := by
  induction frames generalizing turn s with
  | nil => exact Iff.rfl
  | cons f rest ih =>
    obtain ⟨pkt, hpkt⟩ := hdec f List.mem_cons_self
    have hrest := fun t s => ih (fun g hg => hdec g (List.mem_cons_of_mem f hg)) t s
    have hturn : (turnOf lower (startHandlers env) around turn pkt s).1 = .ok () ↔
        Handled env (around.wait turn s) pkt := dispatch_ok_iff_handled hpkt (around.wait turn s)
    constructor
    · intro hgoes hstop pkt' hpkt'
      obtain ⟨found, hfound, hok, hgoes'⟩ := hgoes hstop
      have hsame : found = pkt' := Option.some.inj (hfound.symm.trans hpkt')
      subst hsame
      have hsame : pkt = found := Option.some.inj (hpkt.symm.trans hfound)
      subst hsame
      exact ⟨hturn.mp hok, (hrest _ _).mp hgoes'⟩
    · intro htells hstop
      obtain ⟨hhandled, htells'⟩ := htells hstop pkt hpkt
      exact ⟨pkt, hpkt, hturn.mpr hhandled, (hrest _ _).mpr htells'⟩

end Bot

/-- On a stream of packets that decode, the reader runs on and dispatches them all
exactly when no tell among them makes its handler raise. -/
theorem hears_every_packet_iff (env : Env) (lower : String → String) (around : Surroundings World)
    {ending : Ending} {frames : List Frame} (hdec : ∀ f ∈ frames, ∃ pkt, f.packet = some pkt)
    {tail : Bytes} (htail : Unfinished ending tail) (s : Session World) :
    (∀ fuel, frames.length < fuel →
        Passes lower (startHandlers env) around ending 0 fuel (streamOf frames tail) s
          (beforeStop around.stopping 0 frames)) ↔
      TellsHandled env lower around 0 s frames := by
  rw [← goes_iff_tellsHandled hdec]
  constructor
  · intro hpass
    exact goes_of_passes (by omega) (hpass (frames.length + 1) (by omega))
  · intro hgoes fuel hfuel
    exact passes_of_goes htail hfuel hgoes

def tellPayload (message : String) : Bytes :=
  [0, 0, 0, 7] ++ (bytesOfNat 2 (utf8 message).length ++ utf8 message) ++ [0, 0]

def helloFrame : Frame := ⟨msgPrivate, tellPayload "hello", by decide, by decide⟩

def watchFrame : Frame := ⟨msgPrivate, tellPayload "market watch 5", by decide, by decide⟩

def switchedTo (enabled : String) : Db where
  toTables := { settings := [⟨"Enabled", enabled, .bool⟩] }
  sound := by constructor <;> simp [Keyed, Refers]

/-- The module is disabled, every tell is answered so, and the reader hears on. -/
theorem disabled_bot_hears_on :
    Passes id (startHandlers Env.calm) Surroundings.alone .eof 0 3
      (streamOf [helloFrame, pingFrame] []) ⟨{}, { db := switchedTo "false" }, []⟩
      [helloFrame, pingFrame] := by
  refine (hears_every_packet_iff Env.calm id Surroundings.alone ?_ (unfinished_nil .eof)
    ⟨{}, { db := switchedTo "false" }, []⟩).mpr ?_ 3 (by decide)
  · intro f hf
    rcases List.mem_pair.mp hf with rfl | rfl
    · exact ⟨_, rfl⟩
    · exact ⟨_, rfl⟩
  · intro _ pkt hpkt
    cases hpkt
    refine ⟨fun tell htell => ?_, fun _ pkt' hpkt' => ?_⟩
    · cases htell
      rfl
    · cases hpkt'
      exact ⟨fun _ htell => (nomatch htell), trivial⟩

def itemsDown : Env := { Env.calm with getItem := fun _ _ => .error .http }

/-- One `market watch` while the item service is down, and the ping behind it is not read. -/
theorem item_error_deafens_bot :
    ¬ ∀ fuel, 2 < fuel →
      Passes id (startHandlers itemsDown) Surroundings.alone .eof 0 fuel
        (streamOf [watchFrame, pingFrame] []) ⟨{}, { db := switchedTo "true" }, []⟩
        [watchFrame, pingFrame] := by
  intro h
  obtain ⟨exit, s', hrun, hexit, _⟩ := h 3 (by decide)
  have hraised : (readLoop id (startHandlers itemsDown) Surroundings.alone .eof 3 0
      (streamOf [watchFrame, pingFrame] []) ⟨{}, { db := switchedTo "true" }, []⟩).map Prod.fst =
      some (.raised .http) := rfl
  rw [hrun] at hraised
  exact hexit .http (Option.some.inj hraised)

/-! A logon -/

/-- The bot with its callbacks; `start` is MarketBot.start on a session just logged in. -/
structure Bot where
  session : Session World
  handlers : Handlers World

def start (env : Env) (session : Session World) : Bot := ⟨session, startHandlers env⟩

/-- The reader dispatches a packet, or something else happens: a cycle, a request,
a lookup. -/
inductive Activity where
  | packet (pkt : InboundPacket)
  | others (change : Client → World → Client × World)

namespace Bot

def act (lower : String → String) (b : Bot) : Activity → Bot
  | .packet pkt => { b with session := (b.session.dispatch lower b.handlers pkt).2 }
  | .others change =>
    let (client, state) := change b.session.client b.session.state
    { b with session := { b.session with client := client, state := state } }

def run (lower : String → String) (b : Bot) (acts : List Activity) : Bot := acts.foldl (act lower) b

theorem handlers_act (lower : String → String) (b : Bot) (a : Activity) :
    (b.act lower a).handlers = b.handlers := by
  cases a <;> rfl

/-- Nothing the bot does sets a callback. -/
theorem handlers_run (lower : String → String) (b : Bot) (acts : List Activity) :
    (b.run lower acts).handlers = b.handlers := by
  induction acts generalizing b with
  | nil => rfl
  | cons a rest ih => exact (ih (b.act lower a)).trans (handlers_act lower b a)

end Bot

def queuedFor (db : Db) (player : String) : List MarketPendingAlert :=
  (db.pendingAlerts.filter fun a => a.player == player).insertionSort
    fun a b => a.createdAt ≤ b.createdAt

def Delivered (player : String) (before after : World) : Prop :=
  (∀ a ∈ queuedFor before.db player, a ∉ after.db.pendingAlerts) ∧
    ∃ note, after.log = before.log ++ note ∧
      List.Sublist ((queuedFor before.db player).map fun a => Event.tell player a.message) note

def logonPacket (charId : ℕ) (buddyType : Bytes) : InboundPacket :=
  ⟨buddyLogonoff, [.int charId, .int 1, .str buddyType]⟩

theorem dispatch_logon_state (lower : String → String) {h : Handlers World}
    (hbuddy : h.onBuddyStatus = none) (s : Session World) (charId : ℕ) (buddyType : Bytes) :
    (s.dispatch lower h (logonPacket charId buddyType)).2.state = s.state := by
  simp only [Session.dispatch, logonPacket, ChatClient.dispatch, Handlers.notify, hbuddy]
  rfl

/-- Whatever happened since start(), a logon delivers none of a player's queued
alerts, whether its character id resolves to that player or not. -/
theorem logon_delivers_nothing (env : Env) (lower : String → String) (session : Session World)
    (acts : List Activity) {player : String} (charId : ℕ) (buddyType : Bytes)
    (hqueued : queuedFor ((start env session).run lower acts).session.state.db player ≠ []) :
    ¬ Delivered player ((start env session).run lower acts).session.state
      (((start env session).run lower acts).act lower
        (.packet (logonPacket charId buddyType))).session.state := by
  set b := (start env session).run lower acts with hb
  have hbuddy : b.handlers.onBuddyStatus = none := by
    rw [hb, Bot.handlers_run]
    rfl
  have hstate : (b.act lower (.packet (logonPacket charId buddyType))).session.state =
      b.session.state := dispatch_logon_state lower hbuddy b.session charId buddyType
  rw [hstate]
  intro hdelivered
  obtain ⟨a, ha⟩ := List.exists_mem_of_ne_nil _ hqueued
  have hmem : a ∈ b.session.state.db.pendingAlerts := by
    unfold queuedFor at ha
    rw [List.mem_insertionSort] at ha
    exact (List.mem_filter.mp ha).1
  exact hdelivered.1 a ha hmem

def oneQueued : Db where
  toTables :=
    { users := [⟨"bob", false⟩]
      pendingAlerts := [⟨0, "bob", 5, "1 new order(s)", 0⟩]
      nextAlertId := 1 }
  sound := by constructor <;> simp [Keyed, Refers]

def bobNamed : Activity := .packet ⟨clientName, [.int 7, .str (utf8 "bob")]⟩

def bobsSession : Session World := ⟨{}, { db := oneQueued }, []⟩

theorem bob_logs_on :
    ¬ Delivered "bob" ((start Env.calm bobsSession).run id [bobNamed]).session.state
      (((start Env.calm bobsSession).run id [bobNamed]).act id
        (.packet (logonPacket 7 [0]))).session.state :=
  logon_delivers_nothing Env.calm id bobsSession [bobNamed] 7 [0] (by decide)

def bobAfterLogon : Bot :=
  ((start Env.calm bobsSession).run id [bobNamed]).act id (.packet (logonPacket 7 [0]))

/-- Bob's name is known and he logs on, and his alert stays in the queue. -/
theorem bobs_alert_stays :
    bobAfterLogon.session.client.idToName 7 = some "bob" ∧
      bobAfterLogon.session.client.buddyOnline 7 = some true ∧
      ¬ Delivered "bob" bobsSession.state bobAfterLogon.session.state := by
  refine ⟨rfl, rfl, fun h => ?_⟩
  exact h.1 ⟨0, "bob", 5, "1 new order(s)", 0⟩ (by decide) (by decide)

end AoMarket.BotSession
