import AoMarket.Connection
import Mathlib.Logic.Function.Basic

/-!
aochat/client.py: the dictionaries of a session and what a packet does to them.
A packet leads to at most one handler call, which is made last. `lower` is
str.lower; a future is known by the number of futures created before it.
-/

namespace AoMarket.ChatClient

open Environment Packet Connection

/-- `bytes.decode("latin-1")`. -/
def latin1 (b : Bytes) : String := String.ofList (b.map fun x => Char.ofNat x.toNat)

/-- The id in a reply about an unknown character. -/
def notFound : ℕ := 0xFFFFFFFF

inductive Future where
  | pending
  | done (result : Option ℕ)
  | cancelled
deriving DecidableEq, Repr

structure Client where
  buddyOnline : ℕ → Option Bool := fun _ => none
  idToName : ℕ → Option String := fun _ => none
  nameToId : String → Option ℕ := fun _ => none
  lookupWaiters : String → Option ℕ := fun _ => none
  futures : ℕ → Future := fun _ => .pending
  created : ℕ := 0

/-- The handler call a packet leads to, if that handler is set. -/
inductive Notice where
  | tell (senderId : ℕ) (message : String)
  | privgroup (senderId : ℕ) (message : String)
  | buddy (charId : ℕ) (online : Bool)
deriving DecidableEq, Repr

namespace Client

/-- `future.set_result(resolved)` on the waiter of a key, unless it is done. -/
def resolve (c : Client) (key : String) (resolved : Option ℕ) : Client :=
  match c.lookupWaiters key with
  | some f =>
    if c.futures f = .pending then
      { c with futures := Function.update c.futures f (.done resolved) }
    else c
  | none => c

def remember (c : Client) (key : String) : Option ℕ → Client
  | some charId => { c with nameToId := Function.update c.nameToId key (some charId) }
  | none => c

def receiveLookup (lower : String → String) (c : Client) (charId : ℕ) (name : Bytes) : Client :=
  let key := lower (latin1 name)
  let resolved := if charId = notFound then none else some charId
  (c.remember key resolved).resolve key resolved

/-- The first part of lookup_user: the cached id, or the future of a new waiter. -/
def beginLookup (lower : String → String) (c : Client) (name : String) : ℕ ⊕ (ℕ × Client) :=
  let key := lower name
  match c.nameToId key with
  | some charId => .inl charId
  | none =>
    .inr (c.created,
      { c with
        lookupWaiters := Function.update c.lookupWaiters key (some c.created)
        futures := Function.update c.futures c.created .pending
        created := c.created + 1 })

end Client

def unpackError : PyErr := .value "not enough values to unpack"

/-- `_dispatch` up to the handler call. -/
def dispatch (lower : String → String) (c : Client) (pkt : InboundPacket) :
    Except PyErr (Client × Option Notice) :=
  if pkt.type = msgPrivate then
    match pkt.args with
    | [.int senderId, .str message, _] => .ok (c, some (.tell senderId (latin1 message)))
    | _ => .error unpackError
  else if pkt.type = privgrpMessage then
    match pkt.args with
    | [_, .int senderId, .str message, _] => .ok (c, some (.privgroup senderId (latin1 message)))
    | _ => .error unpackError
  else if pkt.type = buddyLogonoff then
    match pkt.args with
    | [.int charId, .int online, _] =>
      .ok ({ c with buddyOnline := Function.update c.buddyOnline charId (some (online ≠ 0)) },
        some (.buddy charId (online ≠ 0)))
    | _ => .error unpackError
  else if pkt.type = clientName then
    match pkt.args with
    | [.int charId, .str name] =>
      if charId = notFound then .ok (c, none)
      else .ok ({ c with idToName := Function.update c.idToName charId (some (latin1 name)) }, none)
    | _ => .error unpackError
  else if pkt.type = clientLookup then
    match pkt.args with
    | [.int charId, .str name] => .ok (c.receiveLookup lower charId name, none)
    | _ => .error unpackError
  else .ok (c, none)

/-! The read loop -/

structure Handlers (σ : Type) where
  onTell : Option (Client → ℕ → String → σ → Except PyErr Unit × σ) := none
  onPrivgroupMessage : Option (Client → ℕ → String → σ → Except PyErr Unit × σ) := none
  onBuddyStatus : Option (Client → ℕ → Bool → σ → Except PyErr Unit × σ) := none

variable {σ : Type}

/-- `if self.on_... is not None: await self.on_...(...)`. -/
def Handlers.notify (h : Handlers σ) (c : Client) (s : σ) : Option Notice → Except PyErr Unit × σ
  | some (.tell senderId message) =>
    match h.onTell with
    | some f => f c senderId message s
    | none => (.ok (), s)
  | some (.privgroup senderId message) =>
    match h.onPrivgroupMessage with
    | some f => f c senderId message s
    | none => (.ok (), s)
  | some (.buddy charId online) =>
    match h.onBuddyStatus with
    | some f => f c charId online s
    | none => (.ok (), s)
  | none => (.ok (), s)

inductive Exit where
  | stopped
  | connectionLost
  | raised (e : PyErr)
deriving DecidableEq, Repr

structure Session (σ : Type) where
  client : Client
  state : σ
  dispatched : List InboundPacket := []

/-- What surrounds the loop: whether stop() has been called by its turn `k`, and
what the other tasks do to the session while that turn waits for a packet. -/
structure Surroundings (σ : Type) where
  stopping : ℕ → Bool
  others : ℕ → Client → σ → Client × σ

def Surroundings.wait (around : Surroundings σ) (turn : ℕ) (s : Session σ) : Session σ :=
  let (client, state) := around.others turn s.client s.state
  { s with client := client, state := state }

def Session.dispatch (lower : String → String) (h : Handlers σ) (s : Session σ)
    (pkt : InboundPacket) : Except PyErr Unit × Session σ :=
  let s := { s with dispatched := s.dispatched ++ [pkt] }
  match ChatClient.dispatch lower s.client pkt with
  | .error e => (.error e, s)
  | .ok (client, notice) =>
    let (result, state) := h.notify client s.state notice
    (result, { s with client := client, state := state })

/-- `_read_loop`, whose turns are counted from `turn`; `none` when the fuel runs out. -/
def readLoop (lower : String → String) (h : Handlers σ) (around : Surroundings σ)
    (ending : Ending) : ℕ → ℕ → Bytes → Session σ → Option (Exit × Session σ)
  | 0, _, _, _ => none
  | fuel + 1, turn, data, s =>
    if around.stopping turn then some (.stopped, s)
    else
      let s := around.wait turn s
      match readPacket ending data with
      | .error .incompleteRead => some (.connectionLost, s)
      | .error .connection => some (.connectionLost, s)
      | .error e => some (.raised e, s)
      | .ok (pkt, rest) =>
        match s.dispatch lower h pkt with
        | (.error e, s) => some (.raised e, s)
        | (.ok (), s) => readLoop lower h around ending fuel (turn + 1) rest s

/-! What a decoded packet looks like -/

def Decodes : Code → InArg → Prop
  | .int, .int _ => True
  | .str, .str _ => True
  | .ints, .ints _ => True
  | .strs, .strs _ => True
  | _, _ => False

theorem decodeArg_kind {code : Code} {data rest : Bytes} {a : InArg}
    (h : decodeArg code data = .ok (a, rest)) : Decodes code a := by
  cases code with
  | int =>
    obtain ⟨⟨n, r⟩, _, h⟩ := except_bind_eq_ok.mp h
    cases h
    trivial
  | str =>
    obtain ⟨⟨n, r⟩, _, h⟩ := except_bind_eq_ok.mp h
    cases h
    trivial
  | ints =>
    obtain ⟨⟨n, r⟩, _, h⟩ := except_bind_eq_ok.mp h
    obtain ⟨⟨ns, r'⟩, _, h⟩ := except_bind_eq_ok.mp h
    cases h
    trivial
  | strs =>
    obtain ⟨⟨n, r⟩, _, h⟩ := except_bind_eq_ok.mp h
    obtain ⟨⟨ns, r'⟩, _, h⟩ := except_bind_eq_ok.mp h
    cases h
    trivial

theorem decodeCodes_kinds {schema : List Code} {data : Bytes} {args : List InArg}
    (h : decodeCodes schema data = .ok args) : List.Forall₂ Decodes schema args := by
  induction schema generalizing data args with
  | nil =>
    cases h
    exact List.Forall₂.nil
  | cons code schema ih =>
    obtain ⟨⟨a, rest⟩, ha, h⟩ := except_bind_eq_ok.mp h
    obtain ⟨as, has, h⟩ := except_bind_eq_ok.mp h
    cases h
    exact List.Forall₂.cons (decodeArg_kind ha) (ih has)

theorem decodePacket_eq_ok {ptype : ℕ} {payload : Bytes} {pkt : InboundPacket}
    (h : decodePacket ptype payload = .ok pkt) :
    pkt.type = ptype ∧ ∃ schema, inSchemas.lookup ptype = some schema ∧
      decodeCodes schema payload = .ok pkt.args := by
  obtain ⟨args, hargs, h⟩ := except_bind_eq_ok.mp h
  cases h
  obtain ⟨schema, hschema, hdec⟩ := except_bind_eq_ok.mp hargs
  unfold schemaOf at hschema
  cases hl : inSchemas.lookup ptype with
  | none =>
    rw [hl] at hschema
    cases hschema
  | some found =>
    rw [hl] at hschema
    cases hschema
    exact ⟨rfl, schema, rfl, hdec⟩

private theorem kinds_int_str {args : List InArg}
    (h : List.Forall₂ Decodes [.int, .str] args) : ∃ n b, args = [.int n, .str b] := by
  match args, h with
  | [.int n, .str b], _ => exact ⟨n, b, rfl⟩

/-- A packet that was decoded unpacks as _dispatch expects. -/
theorem dispatch_ok (lower : String → String) (c : Client) {ptype : ℕ} {payload : Bytes}
    {pkt : InboundPacket} (h : decodePacket ptype payload = .ok pkt) :
    ∃ r, dispatch lower c pkt = .ok r := by
  obtain ⟨htype, schema, hschema, hdec⟩ := decodePacket_eq_ok h
  have hkinds := decodeCodes_kinds hdec
  obtain ⟨type, args⟩ := pkt
  simp only at htype hkinds
  subst htype
  unfold dispatch
  simp only
  by_cases htell : type = msgPrivate
  · subst htell
    cases hschema
    match args, hkinds with
    | [.int n, .str b, .str b'], _ => exact ⟨_, rfl⟩
  rw [if_neg htell]
  by_cases hgroup : type = privgrpMessage
  · subst hgroup
    cases hschema
    match args, hkinds with
    | [.int g, .int n, .str b, .str b'], _ => exact ⟨_, rfl⟩
  rw [if_neg hgroup]
  by_cases hbuddy : type = buddyLogonoff
  · subst hbuddy
    cases hschema
    match args, hkinds with
    | [.int n, .int online, .str b], _ => exact ⟨_, rfl⟩
  rw [if_neg hbuddy]
  by_cases hname : type = clientName
  · subst hname
    cases hschema
    obtain ⟨n, b, rfl⟩ := kinds_int_str hkinds
    by_cases hn : n = notFound
    · exact ⟨_, if_pos hn⟩
    · exact ⟨_, if_neg hn⟩
  rw [if_neg hname]
  by_cases hlookup : type = clientLookup
  · subst hlookup
    cases hschema
    obtain ⟨n, b, rfl⟩ := kinds_int_str hkinds
    exact ⟨_, rfl⟩
  · exact ⟨_, by rw [if_neg hlookup]⟩

end AoMarket.ChatClient
