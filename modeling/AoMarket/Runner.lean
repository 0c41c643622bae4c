import AoMarket.AdminCommands
import AoMarket.Commands
import AoMarket.Packet

/-! bot/runner.py: how the bot answers a tell. -/

namespace AoMarket.Runner

open Coroutine Environment Packet AdminCommands Commands

structure InboundTell where
  senderId : ℕ
  message : String
deriving DecidableEq, Repr

/-- `name_for_id(char_id) or str(char_id)`. -/
def playerName (nameForId : ℕ → Option String) (charId : ℕ) : String :=
  match nameForId charId with
  | some name => if name = "" then toString charId else name
  | none => toString charId

/-- The reply of handle_admin_command, or else of handle_command. -/
def replyTo (env : Env) (player msg : String) : M String := do
  match ← handleAdminCommand env player msg with
  | some reply => return reply
  | none => handleCommand env player msg

def tellPacket (charId : ℕ) (message : String) : Except PyErr Bytes :=
  encodePacket msgPrivate [.int charId, .str message, .str "\x00"]

def sendReply (env : Env) (charId : ℕ) (message : String) : M Unit := do
  let _ ← Coro.ofExcept (tellPacket charId message)
  external .sendReply env.socket fun _ => [.reply charId message]

def handleTell (env : Env) (nameForId : ℕ → Option String) (tell : InboundTell) : M Unit := do
  let reply ← replyTo env (playerName nameForId tell.senderId) tell.message
  sendReply env tell.senderId reply

end AoMarket.Runner
