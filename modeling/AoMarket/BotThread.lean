import AoMarket.Login
import AoMarket.Reliance

/-!
bot_thread_main of bot/runner.py and the bridge of api/deps.py: the bot thread and the
threads of the API over the one handle they share. A field of the handle is read or
written in one turn, and the login is the client's own, call by call.
-/

namespace AoMarket.BotThread

open Coroutine Reliance Login

/-- Work for the event loop of the bot, as the API hands it over. -/
inductive Work where
  | sendPrivgroup (message : String)
  | sendTell (player message : String)
  | isOnline (player : String)
  | poll
  | autotrack
deriving DecidableEq, Repr

inductive EventLoop where
  | created
  | closed
deriving DecidableEq, Repr

/-- BotHandle with the objects it refers to: `conn` is the chat client, `submitted` what has
been scheduled on the loop from other threads, the first first. -/
structure Handle where
  loop : Option EventLoop := none
  bot : Bool := false
  ready : Bool := false
  conn : Login.State
  onTell : Bool := false
  tasks : Bool := false
  submitted : List Work := []

inductive ThreadCall where
  | assign
  | login (c : Await)
  | runForever
  | look
  | submit (w : Work)
deriving DecidableEq, Repr

inductive ThreadErr where
  | login (e : LoginErr)
  | botNotReady
  | notConnected
  | attribute
  | loopClosed
deriving DecidableEq

abbrev Thread (α : Type) := Coro ThreadCall Handle ThreadErr α

def look {α : Type} (f : Handle → α) : Thread α := Coro.act .look fun s => (.ok (f s), s)

def assign (f : Handle → Handle) : Thread Unit := Coro.act .assign fun s => (.ok (), f s)

/-! The bot thread -/

def onClient {α : Type} (p : L α) : Thread α :=
  onPart .login Handle.conn (fun conn s => { s with conn := conn }) (withErrors .login p)

def start (link : Link) (account : Account) : Thread Unit := do
  onClient (login link account)
  assign fun s => { s with onTell := true }
  assign fun s => { s with tasks := true }

def close : Thread Unit := assign fun s => { s with loop := some .closed }

def botThreadMain (link : Link) (account : Account) : Thread Unit := do
  assign fun s => { s with loop := some .created }
  assign fun s => { s with bot := true }
  let started ← tryCatch (do
    start link account
    return true)
    fun _ => return false
  if !started then
    close
    return ()
  assign fun s => { s with ready := true }
  Coro.act .runForever fun s => (.ok (), s)
  close

/-! The bridge -/

/-- `handle.bot.…`, which fails on None. -/
def deref : Thread Unit := do
  if !(← look Handle.bot) then
    throw .attribute

/-- run_coroutine_threadsafe, with the loop that is found in the handle now. -/
def submit (w : Work) : Thread Unit :=
  Coro.act (.submit w) fun s =>
    match s.loop with
    | none => (.error .attribute, s)
    | some .closed => (.error .loopClosed, s)
    | some .created => (.ok (), { s with submitted := s.submitted ++ [w] })

def callOnBot (w : Work) : Thread Unit := do
  if (← look Handle.loop).isNone then
    throw .botNotReady
  if !(← look Handle.ready) then
    throw .botNotReady
  deref
  submit w

/-- A callback of get_service's chat sink. -/
def sink (w : Work) : Thread Unit := do
  if ← look Handle.ready then
    callOnBot w

/-- A route behind require_bot_ready. -/
def trigger (w : Work) : Thread Unit := do
  if !(← look Handle.ready) then
    throw .notConnected
  deref
  callOnBot w

structure BotStatus where
  connected : Bool
  character : Option CharacterInfo
deriving DecidableEq

def botStatus : Thread BotStatus := do
  if ← look Handle.ready then
    deref
    return { connected := true, character := ← look fun s => s.conn.selected }
  else
    return { connected := false, character := none }

inductive Job where
  | botThread
  | sink (w : Work)
  | trigger (w : Work)
  | status
deriving DecidableEq, Repr

def perform (link : Link) (account : Account) : Job → Thread (Option BotStatus)
  | .botThread => do botThreadMain link account; return none
  | .sink w => do sink w; return none
  | .trigger w => do trigger w; return none
  | .status => do return some (← botStatus)

end AoMarket.BotThread
