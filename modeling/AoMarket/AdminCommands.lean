import AoMarket.AuthService
import AoMarket.Rendering

/-! bot/admin_commands.py: the `!settings` command, for admins only. -/

namespace AoMarket.AdminCommands

open Coroutine PyText Regex Environment SettingsRepo Rendering

inductive AdminCommand where
  | settingsSet | settingsGet | settingsList
deriving DecidableEq, Repr

/-- `([A-Za-z][A-Za-z0-9_]*)`. -/
def keyRe : Re :=
  .group 1 (.seq (.char isLetter)
    (.star (.char fun c => isLetter c || (digitValue c).isSome || c == '_')))

def adminPatterns : List (AdminCommand × Re) :=
  [(.settingsSet, .all [word "!settings", space.plus, keyRe, space.plus,
     .group 2 (.seq (.char fun c => !isSpace c) (.star dot)), .dollar]),
   (.settingsGet, .all [word "!settings", space.plus, keyRe, .star space, .dollar]),
   (.settingsList, .all [word "!settings", .star space, .dollar])]

def selectAdmin (msg : String) : Option (AdminCommand × Groups) :=
  adminPatterns.findSome? fun p => (p.2.matchStart msg).map fun gs => (p.1, gs)

def coerceTo (py : Runtime) (key raw : String) : SettingValue → Except PyErr SettingValue
  | .bool _ =>
    let lowered := lower (strip raw)
    if lowered ∈ ["true", "on", "yes", "1"] then .ok (.bool true)
    else if lowered ∈ ["false", "off", "no", "0"] then .ok (.bool false)
    else .error (.value
      s!"{PyText.repr py raw} is not a valid bool for {key} (use true/false)")
  | .int _ =>
    match parseInt py.decimal raw with
    | some n => .ok (.int n)
    | none => .error (.value s!"{PyText.repr py raw} is not a valid integer for {key}")
  | .float _ =>
    match py.parseFloat raw with
    | some x => .ok (.float x)
    | none => .error (.value s!"{PyText.repr py raw} is not a valid number for {key}")
  | .str _ => .ok (.str raw)

def coerceSettingValue (env : Env) (key raw : String) : M SettingValue := do
  let current ← get env key
  Coro.ofExcept (coerceTo env.py key raw current)

/-- `except ValueError as exc: return str(exc)`: the reply, or the value. -/
def coerceOrReply (env : Env) (key raw : String) : M (String ⊕ SettingValue) :=
  tryCatch (do return .inr (← coerceSettingValue env key raw)) fun
    | .value message => pure (.inl message)
    | e => throw e

def dispatch (env : Env) (name : AdminCommand) (gs : Groups) : M String :=
  let key := (groupOf gs 1).getD ""
  match name with
  | .settingsSet => do
    match ← coerceOrReply env key (strip ((groupOf gs 2).getD "")) with
    | .inl message => return message
    | .inr value =>
      set env key value
      let newValue ← get env key
      return s!"{key} = {newValue.repr env.py}"
  | .settingsGet => do
    let value ← get env key
    return s!"{key} = {value.repr env.py}"
  | .settingsList => do
    return renderSettingsList env.py (← all env)

def dispatchReply (env : Env) (name : AdminCommand) (gs : Groups) : M String :=
  tryCatch (dispatch env name gs) fun
    | .unknownSetting key =>
      pure s!"Unknown setting {PyText.repr env.py key}. Try '!settings' to list valid keys."
    | e => throw e

def handleAdminCommand (env : Env) (player msg : String) : M (Option String) :=
  match selectAdmin msg with
  | none => pure none
  | some (name, gs) => do
    if !(← AuthService.isAdminPlayer env player) then
      return none
    return some (← dispatchReply env name gs)

end AoMarket.AdminCommands
