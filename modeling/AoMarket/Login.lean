import AoMarket.ChatClient
import AoMarket.Crypto
import AoMarket.InboundArgs
import AoMarket.WireFormat

/-!
AOChatClient.login over one connection. The server speaks first; the client answers
a seed with its key and a character list with its choice, and reads one packet more.
What the two sides put on the wire is followed byte by byte: `inbound` is what the
server has sent or will send, `outbound` what the client has handed to the transport.
-/

namespace AoMarket.Login

open Coroutine Outcomes Environment PyText Packet Connection Crypto ChatClient

structure CharacterInfo where
  id : ℕ
  name : String
  level : ℕ
  online : ℕ
deriving DecidableEq, Repr

/-- An AOChatLoginError with its text, or what a call of login raised. -/
inductive LoginErr where
  | login (message : String)
  | raised (e : PyErr)
deriving DecidableEq

structure Account where
  username : String
  password : String
  characterName : String

/-- What login draws and what surrounds it: `exponent` and `random` are the two draws of
generate_login_key, `drained` is how the n-th drain ends and `capitalize` is str.capitalize. -/
structure Link where
  py : Runtime
  dh : DhParams
  exponent : ℕ
  random : Bytes
  connected : Except PyErr Unit
  drained : ℕ → Except PyErr Unit
  ending : Ending
  capitalize : String → String

/-- The fields of the client that login touches, and the connection. -/
structure State where
  inbound : Bytes
  outbound : Bytes := []
  sent : ℕ := 0
  characters : List CharacterInfo := []
  selected : Option CharacterInfo := none

inductive Await where
  | connect | read | send | assign
deriving DecidableEq, Repr

abbrev L (α : Type) := Coro Await State LoginErr α

/-! The calls -/

def connect (link : Link) : L Unit :=
  Coro.act .connect fun s => (link.connected.mapError .raised, s)

/-- A packet that does not decode ends the login; what follows it is not read. -/
def connRead (link : Link) : L InboundPacket :=
  Coro.act .read fun s =>
    match readPacket link.ending s.inbound with
    | .ok (pkt, rest) => (.ok pkt, { s with inbound := rest })
    | .error e => (.error (.raised e), s)

def connSend (link : Link) (ptype : ℕ) (args : List OutArg) : L Unit :=
  Coro.act .send fun s =>
    let (result, outbound) := sendPacket (link.drained s.sent) ptype args s.outbound
    (result.mapError .raised, { s with outbound := outbound, sent := s.sent + 1 })

def assign (f : State → State) : L Unit := Coro.act .assign fun s => (.ok (), f s)

/-! The character list -/

/-- Who comes before argument `i` in the message of `zip(..., strict=True)`. -/
def earlier (i : ℕ) : String := if i = 1 then "argument 1" else s!"arguments 1-{i}"

/-- The ValueError of a strict zip whose arguments end (`true`) at different lengths. -/
def zipError (ended : List Bool) : LoginErr :=
  let message := match ended.findIdx (· = true) with
    | 0 =>
      let j := ended.findIdx (· = false)
      s!"zip() argument {j + 1} is longer than {earlier j}"
    | i => s!"zip() argument {i + 1} is shorter than {earlier i}"
  .raised (.value message)

/-- The list comprehension over `zip(ids, names, levels, online_flags, strict=True)`. -/
def charactersOf (capitalize : String → String) :
    List ℕ → List Bytes → List ℕ → List ℕ → Except LoginErr (List CharacterInfo)
  | [], [], [], [] => .ok []
  | i :: ids, n :: names, lvl :: levels, on :: online => do
    let rest ← charactersOf capitalize ids names levels online
    return { id := i, name := capitalize (latin1 n), level := lvl, online := on } :: rest
  | ids, names, levels, online =>
    .error (zipError [ids.isEmpty, names.isEmpty, levels.isEmpty, online.isEmpty])

/-- `ids, names, levels, online_flags = charlist_packet.args`. -/
def listedIn (link : Link) : List InArg → Except LoginErr (List CharacterInfo)
  | [.ints ids, .strs names, .ints levels, .ints online] =>
    charactersOf link.capitalize ids names levels online
  | _ => .error (.raised unpackError)

def firstArg : List InArg → Except LoginErr Bytes
  | .str b :: _ => .ok b
  | _ => .error (.raised (.other "IndexError"))

def chosen (link : Link) (account : Account) (listed : List CharacterInfo) :
    Option CharacterInfo :=
  listed.find? fun c => c.name = link.capitalize account.characterName

/-! The login -/

def request (account : Account) (key : String) : List OutArg :=
  [.int 0, .str account.username, .str key]

def answerSeed (link : Link) (account : Account) : L Unit := do
  let seedPacket ← connRead link
  if seedPacket.type ≠ loginSeed then
    throw (.login s!"expected LOGIN_SEED, got type {seedPacket.type}")
  let serverSeed ← Coro.ofExcept (firstArg seedPacket.args)
  let key ← Coro.ofExcept ((generateLoginKey link.dh serverSeed account.username account.password
    link.exponent link.random).mapError .raised)
  connSend link loginRequest (request account key)

def answerCharlist (link : Link) (account : Account) : L CharacterInfo := do
  let charlistPacket ← connRead link
  if charlistPacket.type = loginError then
    let reason ← Coro.ofExcept (firstArg charlistPacket.args)
    throw (.login s!"login rejected: {latin1 reason}")
  if charlistPacket.type ≠ loginCharlist then
    throw (.login s!"expected LOGIN_CHARLIST, got type {charlistPacket.type}")
  let listed ← Coro.ofExcept (listedIn link charlistPacket.args)
  assign fun s => { s with characters := listed }
  match chosen link account listed with
  | none =>
    throw (.login
      s!"character {PyText.repr link.py account.characterName} not found in account character list")
  | some selected =>
    connSend link loginSelect [.int selected.id]
    return selected

def awaitOk (link : Link) (selected : CharacterInfo) : L Unit := do
  let okPacket ← connRead link
  if okPacket.type ≠ loginOk then
    throw (.login s!"expected LOGIN_OK, got type {okPacket.type}")
  assign fun s => { s with selected := some selected }

def login (link : Link) (account : Account) : L Unit := do
  connect link
  answerSeed link account
  let selected ← answerCharlist link account
  awaitOk link selected

end AoMarket.Login
