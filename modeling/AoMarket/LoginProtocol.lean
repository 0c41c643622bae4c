import AoMarket.Login
import AoMarket.TextCodec

/-!
What the login may have said when it ends, and when it succeeds. `Request` and
`Choice` are the two answers of the client, each with the packet it answers: whatever
the server sends, nothing else is written, in no other order. Against a server that
sends a seed, a list with the configured character and LOGIN_OK the login succeeds,
and the server finds the credentials in what it got.
-/

namespace AoMarket.LoginProtocol

open Coroutine Outcomes Environment Framing Packet Connection Crypto ChatClient Login
open WireFormat hiding Suits
open InboundArgs (encodeIn)

variable {link : Link} {account : Account} {s : State}

/-- A login request the client can make: the seed it answers has arrived. -/
structure Request (link : Link) (account : Account) (s : State) where
  args : List InArg
  rest : Bytes
  seed : Bytes
  key : String
  frame : Bytes
  received : readPacket link.ending s.inbound = .ok (⟨loginSeed, args⟩, rest)
  seed_arg : firstArg args = .ok seed
  derived : generateLoginKey link.dh seed account.username account.password link.exponent
    link.random = .ok key
  encoded : encodePacket loginRequest (request account key) = .ok frame

def Request.after (q : Request link account s) : State :=
  { s with inbound := q.rest, outbound := s.outbound ++ q.frame, sent := s.sent + 1 }

/-- A choice the client can make: the list that holds the character has arrived. -/
structure Choice (link : Link) (account : Account) (s : State) where
  args : List InArg
  rest : Bytes
  listed : List CharacterInfo
  selected : CharacterInfo
  frame : Bytes
  received : readPacket link.ending s.inbound = .ok (⟨loginCharlist, args⟩, rest)
  decoded : listedIn link args = .ok listed
  found : chosen link account listed = some selected
  encoded : encodePacket loginSelect [.int selected.id] = .ok frame

def Choice.after (c : Choice link account s) : State :=
  { s with
    inbound := c.rest, outbound := s.outbound ++ c.frame, sent := s.sent + 1,
    characters := c.listed }

/-! One call -/

theorem run_connRead {pkt : InboundPacket} {rest : Bytes}
    (h : readPacket link.ending s.inbound = .ok (pkt, rest)) :
    (connRead link).run s = (.ok pkt, { s with inbound := rest }) := by
  simp only [connRead, Coro.run_act, h]

theorem run_connSend {ptype : ℕ} {args : List OutArg} {frame : Bytes}
    (henc : encodePacket ptype args = .ok frame) (hdrain : link.drained s.sent = .ok ()) :
    (connSend link ptype args).run s =
      (.ok (), { s with outbound := s.outbound ++ frame, sent := s.sent + 1 }) := by
  simp only [connSend, Coro.run_act, sendPacket, henc, hdrain]
  rfl

section Calls
variable {α : Type} {R : α → State → Prop} {E : LoginErr → State → Prop}

theorem yields_connRead {f : InboundPacket → L α}
    (hok : ∀ pkt rest, readPacket link.ending s.inbound = .ok (pkt, rest) →
      Yields (f pkt) { s with inbound := rest } R E)
    (herror : ∀ e, E (.raised e) s) : Yields (connRead link >>= f) s R E := by
  apply Yields.bind_act
  · intro pkt t hread
    cases h : readPacket link.ending s.inbound with
    | error e =>
      rw [h] at hread
      cases hread
    | ok r =>
      rw [h] at hread
      cases hread
      exact hok r.1 r.2 h
  · intro e t hread
    cases h : readPacket link.ending s.inbound with
    | error e =>
      rw [h] at hread
      cases hread
      exact herror _
    | ok r =>
      rw [h] at hread
      cases hread

/-- Whether the drain fails or not, the whole frame has been written, or nothing. -/
theorem yields_connSend {ptype : ℕ} {args : List OutArg} {Q : Unit → State → Prop}
    (hok : ∀ frame, encodePacket ptype args = .ok frame → link.drained s.sent = .ok () →
      Q () { s with outbound := s.outbound ++ frame, sent := s.sent + 1 })
    (hdrain : ∀ frame e, encodePacket ptype args = .ok frame →
      E e { s with outbound := s.outbound ++ frame, sent := s.sent + 1 })
    (henc : ∀ e, E e { s with sent := s.sent + 1 }) : Yields (connSend link ptype args) s Q E := by
  have hrun : (connSend link ptype args).run s =
      (((sendPacket (link.drained s.sent) ptype args s.outbound).1.mapError .raised),
        { s with
          outbound := (sendPacket (link.drained s.sent) ptype args s.outbound).2,
          sent := s.sent + 1 }) := Coro.run_act _ _ _
  rw [Yields, hrun]
  unfold sendPacket
  cases hframe : encodePacket ptype args with
  | error e => exact henc _
  | ok frame =>
    cases hdrained : link.drained s.sent with
    | error e => exact hdrain frame _ hframe
    | ok u => exact hok frame hframe hdrained

end Calls

/-! The two answers -/

-- Unfolded, a run would encode the login request while terms are compared.
attribute [local irreducible] Yields

/-- What a login that was broken off in its first half leaves. -/
def Unanswered (link : Link) (account : Account) (s t : State) : Prop :=
  t.selected = s.selected ∧
    (t.outbound = s.outbound ∨ ∃ q : Request link account s, t.outbound = s.outbound ++ q.frame)

/-- The first half sends the request that answers the seed it has read, or breaks off with that
request written or nothing. -/
theorem answerSeed_ends (link : Link) (account : Account) (s : State) :
    Yields (answerSeed link account) s
      (fun _ t => link.drained s.sent = .ok () ∧ ∃ q : Request link account s, t = q.after)
      (fun _ t => Unanswered link account s t) := by
  have hnothing : ∀ t : State, t.selected = s.selected → t.outbound = s.outbound →
      Unanswered link account s t := fun t hsel hout => ⟨hsel, Or.inl hout⟩
  refine yields_connRead (fun pkt rest hread => ?_) fun _ => hnothing _ rfl rfl
  by_cases htype : pkt.type = loginSeed
  swap
  · rw [if_pos htype]
    exact Yields.throw (hnothing _ rfl rfl)
  have hseedPacket : readPacket link.ending s.inbound = .ok (⟨loginSeed, pkt.args⟩, rest) := by
    rw [hread, ← htype]
  rw [if_neg (not_not.mpr htype)]
  refine Yields.bind_except (fun seed hseed => ?_) fun _ _ => hnothing _ rfl rfl
  generalize hderived : generateLoginKey link.dh seed account.username account.password
    link.exponent link.random = derived
  refine Yields.bind_except (fun key hkey => ?_) fun _ _ => hnothing _ rfl rfl
  cases derived with
  | error e => cases hkey
  | ok derived =>
    cases hkey
    have hrequest : ∀ frame, encodePacket loginRequest (request account key) = .ok frame →
        ∃ q : Request link account s, q.frame = frame ∧ q.rest = rest := fun frame henc =>
      ⟨⟨pkt.args, rest, seed, key, frame, hseedPacket, hseed, hderived, henc⟩, rfl, rfl⟩
    refine yields_connSend (fun frame henc hdrain => ?_) (fun frame e henc => ?_)
      fun _ => hnothing _ rfl rfl
    · obtain ⟨q, rfl, rfl⟩ := hrequest frame henc
      exact ⟨hdrain, q, rfl⟩
    · obtain ⟨q, rfl, rfl⟩ := hrequest frame henc
      exact ⟨rfl, Or.inr ⟨q, rfl⟩⟩

def Unchosen (link : Link) (account : Account) (s t : State) : Prop :=
  t.selected = s.selected ∧
    (t.outbound = s.outbound ∨ ∃ c : Choice link account s, t.outbound = s.outbound ++ c.frame)

/-- The second half sends the choice of a listed character, or breaks off with that choice
written or nothing more. -/
theorem answerCharlist_ends (link : Link) (account : Account) (s : State) :
    Yields (answerCharlist link account) s
      (fun selected t => link.drained s.sent = .ok () ∧
        ∃ c : Choice link account s, selected = c.selected ∧ t = c.after)
      (fun _ t => Unchosen link account s t) := by
  have hnothing : ∀ t : State, t.selected = s.selected → t.outbound = s.outbound →
      Unchosen link account s t := fun t hsel hout => ⟨hsel, Or.inl hout⟩
  refine yields_connRead (fun pkt rest hread => ?_) fun _ => hnothing _ rfl rfl
  by_cases hrejected : pkt.type = loginError
  · rw [if_pos hrejected]
    exact Yields.bind_except (fun reason _ => Yields.throw (hnothing _ rfl rfl))
      fun _ _ => hnothing _ rfl rfl
  rw [if_neg hrejected]
  by_cases htype : pkt.type = loginCharlist
  swap
  · rw [if_pos htype]
    exact Yields.throw (hnothing _ rfl rfl)
  have hlistPacket : readPacket link.ending s.inbound = .ok (⟨loginCharlist, pkt.args⟩, rest) := by
    rw [hread, ← htype]
  rw [if_neg (not_not.mpr htype)]
  refine Yields.bind_except (fun listed hlisted => ?_) fun _ _ => hnothing _ rfl rfl
  refine Yields.bind_act ?_ (fun e t h => by cases h)
  intro _ t h
  cases h
  cases hchosen : chosen link account listed with
  | none => exact Yields.throw (hnothing _ rfl rfl)
  | some selected =>
    dsimp only
    have hchoice : ∀ frame, encodePacket loginSelect [.int selected.id] = .ok frame →
        ∃ c : Choice link account s, c.frame = frame ∧ c.rest = rest ∧ c.listed = listed ∧
          c.selected = selected := fun frame henc =>
      ⟨⟨pkt.args, rest, listed, selected, frame, hlistPacket, hlisted, hchosen, henc⟩,
        rfl, rfl, rfl, rfl⟩
    refine Yields.bind (yields_connSend (Q := fun _ t => link.drained s.sent = .ok () ∧
      ∃ c : Choice link account s, selected = c.selected ∧ t = c.after)
        (fun frame henc hdrain => ?_) (fun frame e henc => ?_) fun _ => hnothing _ rfl rfl)
          fun _ t h => Yields.pure h
    · obtain ⟨c, rfl, rfl, rfl, rfl⟩ := hchoice frame henc
      exact ⟨hdrain, c, rfl, rfl⟩
    · obtain ⟨c, rfl, rfl, rfl, rfl⟩ := hchoice frame henc
      exact ⟨rfl, Or.inr ⟨c, rfl⟩⟩

/-! The whole login -/

def BrokenOff (link : Link) (account : Account) (s t : State) : Prop :=
  t.selected = s.selected ∧
    (t.outbound = s.outbound ∨ ∃ q : Request link account s,
      t.outbound = s.outbound ++ q.frame ∨
        ∃ c : Choice link account q.after, t.outbound = s.outbound ++ q.frame ++ c.frame)

/-- The server asked for both answers and confirmed the second. -/
def Confirmed (link : Link) (account : Account) (s t : State) : Prop :=
  ∃ (q : Request link account s) (c : Choice link account q.after) (args : List InArg)
    (rest : Bytes),
    readPacket link.ending c.rest = .ok (⟨loginOk, args⟩, rest) ∧
      t = { c.after with inbound := rest, selected := some c.selected }

/-- The last part reads one packet, and gives the client its character exactly when it
is LOGIN_OK. -/
theorem awaitOk_ends (link : Link) (selected : CharacterInfo) (s : State) :
    Yields (awaitOk link selected) s
      (fun _ t => ∃ args rest, readPacket link.ending s.inbound = .ok (⟨loginOk, args⟩, rest) ∧
        t = { s with inbound := rest, selected := some selected })
      (fun _ t => t.selected = s.selected ∧ t.outbound = s.outbound) := by
  refine yields_connRead (fun pkt rest hread => ?_) fun _ => ⟨rfl, rfl⟩
  by_cases htype : pkt.type = loginOk
  · rw [if_neg (not_not.mpr htype)]
    refine Yields.of_run (fun _ t hrun => ?_) fun _ t hrun => by cases hrun
    cases hrun
    exact ⟨pkt.args, rest, by rw [hread, ← htype], rfl⟩
  · rw [if_pos htype]
    exact Yields.throw ⟨rfl, rfl⟩

/-- Whatever the server sends and wherever the connection fails, the client says nothing
before a seed, chooses nothing before a list that holds its character, and counts as
logged in only once both answers were made and confirmed. -/
theorem login_ends (link : Link) (account : Account) (s : State) :
    Yields (login link account) s
      (fun _ t => link.connected = .ok () ∧ link.drained s.sent = .ok () ∧
        link.drained (s.sent + 1) = .ok () ∧ Confirmed link account s t)
      (fun _ t => BrokenOff link account s t) := by
  refine Yields.bind_act (fun _ t hconnect => ?_) fun e t hconnect => ?_
  swap
  · have hsame : s = t := congrArg Prod.snd hconnect
    exact ⟨by rw [← hsame], Or.inl (by rw [← hsame])⟩
  have hconnected : link.connected = .ok () := by
    cases hc : link.connected with
    | ok u => rfl
    | error e =>
      rw [hc] at hconnect
      cases hconnect
  rw [hconnected] at hconnect
  cases hconnect
  refine Yields.bind ((answerSeed_ends link account s).mono (fun _ _ h => h) ?_) ?_
  · rintro e t ⟨hsel, hout | ⟨q, hout⟩⟩
    · exact ⟨hsel, Or.inl hout⟩
    · exact ⟨hsel, Or.inr ⟨q, Or.inl hout⟩⟩
  rintro _ _ ⟨hdrain, q, rfl⟩
  refine Yields.bind ((answerCharlist_ends link account q.after).mono (fun _ _ h => h) ?_) ?_
  · rintro e t ⟨hsel, hout | ⟨c, hout⟩⟩
    · exact ⟨hsel, Or.inr ⟨q, Or.inl hout⟩⟩
    · exact ⟨hsel, Or.inr ⟨q, Or.inr ⟨c, hout⟩⟩⟩
  rintro _ _ ⟨hdrain', c, rfl, rfl⟩
  refine (awaitOk_ends link c.selected c.after).mono ?_ ?_
  · rintro _ t ⟨args, rest, hok, ht⟩
    exact ⟨hconnected, hdrain, hdrain', q, c, args, rest, hok, ht⟩
  · rintro _ t ⟨hsel, hout⟩
    exact ⟨hsel, Or.inr ⟨q, Or.inr ⟨c, hout⟩⟩⟩

/-! What is enough for it -/

theorem run_answerSeed (q : Request link account s) (hdrain : link.drained s.sent = .ok ()) :
    (answerSeed link account).run s = (.ok (), q.after) := by
  unfold answerSeed
  rw [Coro.run_bind_ok (run_connRead q.received)]
  dsimp only
  rw [if_neg (not_not.mpr rfl), q.seed_arg, Coro.run_bind_ok (Coro.run_ofExcept _ _), q.derived]
  have hsend : (connSend link loginRequest (request account q.key)).run { s with inbound := q.rest } =
      (.ok (), q.after) := run_connSend q.encoded hdrain
  exact hsend

theorem run_answerCharlist (c : Choice link account s) (hdrain : link.drained s.sent = .ok ()) :
    (answerCharlist link account).run s = (.ok c.selected, c.after) := by
  unfold answerCharlist
  rw [Coro.run_bind_ok (run_connRead c.received)]
  dsimp only
  rw [if_neg (by decide), if_neg (not_not.mpr rfl), c.decoded,
    Coro.run_bind_ok (Coro.run_ofExcept _ _)]
  have hassign : (assign fun t : State => { t with characters := c.listed }).run
      { s with inbound := c.rest } =
        (.ok (), { s with inbound := c.rest, characters := c.listed }) := Coro.run_act _ _ _
  have hsend : (connSend link loginSelect [.int c.selected.id]).run
      { s with inbound := c.rest, characters := c.listed } = (.ok (), c.after) :=
    run_connSend c.encoded hdrain
  rw [Coro.run_bind_ok hassign, c.found]
  dsimp only
  rw [Coro.run_bind_ok hsend]
  rfl

/-- With both answers made and confirmed the login returns. -/
theorem run_login (hconnected : link.connected = .ok ()) (hdrain : link.drained s.sent = .ok ())
    (hdrain' : link.drained (s.sent + 1) = .ok ()) (q : Request link account s)
    (c : Choice link account q.after) {args : List InArg} {rest : Bytes}
    (hok : readPacket link.ending c.rest = .ok (⟨loginOk, args⟩, rest)) :
    (login link account).run s =
      (.ok (), { c.after with inbound := rest, selected := some c.selected }) := by
  have hconnect : (connect link).run s = (.ok (), s) := by
    unfold connect
    rw [Coro.run_act, hconnected]
    rfl
  have hread : (connRead link).run c.after = (.ok ⟨loginOk, args⟩, { c.after with inbound := rest }) :=
    run_connRead hok
  unfold login
  rw [Coro.run_bind_ok hconnect, Coro.run_bind_ok (run_answerSeed q hdrain),
    Coro.run_bind_ok (run_answerCharlist c hdrain')]
  unfold awaitOk
  rw [Coro.run_bind_ok hread]
  dsimp only
  rw [if_neg (not_not.mpr rfl)]
  rfl

/-- The login returns exactly when both answers could be made and were confirmed. Whatever
the server sends and wherever the connection fails, a login that does not return leaves the
client without a character, and has said nothing before a seed and chosen nothing before a
list that holds its character. -/
theorem login_outcome (link : Link) (account : Account) (s : State) :
    (∀ t, (login link account).run s = (.ok (), t) ↔
      (link.connected = .ok () ∧ link.drained s.sent = .ok () ∧
        link.drained (s.sent + 1) = .ok ()) ∧ Confirmed link account s t) ∧
      ∀ e t, (login link account).run s = (.error e, t) → BrokenOff link account s t := by
  refine ⟨fun t => ⟨fun hrun => ?_, ?_⟩, fun e t hrun => (login_ends link account s).error hrun⟩
  · obtain ⟨hconnected, hdrain, hdrain', hconfirmed⟩ := (login_ends link account s).ok hrun
    exact ⟨⟨hconnected, hdrain, hdrain'⟩, hconfirmed⟩
  · rintro ⟨⟨hconnected, hdrain, hdrain'⟩, q, c, args, rest, hok, rfl⟩
    exact run_login hconnected hdrain hdrain' q c hok

end AoMarket.LoginProtocol
