import AoMarket.Environment

/-!
db/settings_repo.py: key/value rows with a declared type. A value is written as
text by the row's type and read back by it; reading may fail when the text does
not parse. CPython also refuses to write an integer of more than 4300 digits.
-/

namespace AoMarket.SettingsRepo

open Coroutine Relational Models Database PyNumber PyText Environment

inductive SettingValue where
  | bool (b : Bool)
  | int (n : ℤ)
  | float (x : PyFloat)
  | str (s : String)
deriving DecidableEq

structure SettingDefault where
  key : String
  value : SettingValue
  valueType : ValueType

def defaultSettings : List SettingDefault :=
  [⟨"Enabled", .bool false, .bool⟩,
   ⟨"ApiUrl", .str "https://gmi.nadybot.org", .str⟩,
   ⟨"PollIntervalMinutes", .int 30, .int⟩,
   ⟨"HistoryRetentionDays", .int 90, .int⟩,
   ⟨"WatchExpireDays", .int 30, .int⟩,
   ⟨"PollBatchSize", .int 25, .int⟩,
   ⟨"AutoTrackEnabled", .bool true, .bool⟩,
   ⟨"AutoTrackCount", .int 100, .int⟩,
   ⟨"AutoTrackIntervalMinutes", .int 60, .int⟩,
   ⟨"AutoTrackSourceUrl", .str "https://ao-stonks.com", .str⟩,
   ⟨"AutoTrackLastSync", .int 0, .int⟩,
   ⟨"MaxSubscriptionsPerPlayer", .int 25, .int⟩,
   ⟨"LogToPrivateChannel", .bool false, .bool⟩,
   ⟨"LogBackgroundToPrivateChannel", .bool false, .bool⟩]

def tooManyDigits : String :=
  "Exceeds the limit (4300 digits) for integer string conversion; " ++
    "use sys.set_int_max_str_digits() to increase the limit"

/-- The digits `int(s)` counts before it reads them: those up to the first other
character, none where an underscore is out of place. -/
def countedDigits (dec : Char → Option ℕ) (s : String) : ℕ :=
  let body := match stripWith isIntSpace s.toList with
    | '-' :: cs | '+' :: cs => cs
    | cs => cs
  let run := body.takeWhile fun c => (dec c).isSome || c == '_'
  if (readDigits dec false 0 run).isSome then (run.filter fun c => (dec c).isSome).length else 0

def intError (py : Runtime) (s : String) : String :=
  let digits := countedDigits py.decimal s
  if digits ≤ maxStrDigits then
    "invalid literal for int() with base 10: " ++
      String.ofList ((PyText.repr py s).toList.take 200)
  else
    s!"Exceeds the limit (4300 digits) for integer string conversion: value has {digits} digits; " ++
      "use sys.set_int_max_str_digits() to increase the limit"

namespace SettingValue

/-- `bool(value)`. -/
def truthy : SettingValue → Bool
  | bool b => b
  | int n => n ≠ 0
  | float x => x ≠ .fin 0
  | str s => s ≠ ""

/-- `str(value)`. -/
def toText (py : Runtime) : SettingValue → Except PyErr String
  | bool b => .ok (if b then "True" else "False")
  | int n =>
    if (toString n.natAbs).length ≤ maxStrDigits then .ok (toString n)
    else .error (.value tooManyDigits)
  | float x => .ok (py.floatRepr x)
  | str s => .ok s

/-- `repr(value)`. -/
def repr (py : Runtime) : SettingValue → String
  | bool b => if b then "True" else "False"
  | int n => toString n
  | float x => py.floatRepr x
  | str s => PyText.repr py s

end SettingValue

def serialize (py : Runtime) (value : SettingValue) : ValueType → Except PyErr String
  | .bool => .ok (if value.truthy then "true" else "false")
  | _ => value.toText py

def deserialize (py : Runtime) (value : String) : ValueType → Except PyErr SettingValue
  | .bool => .ok (.bool (value == "true"))
  | .int =>
    match parseInt py.decimal value with
    | some n => .ok (.int n)
    | none => .error (.value (intError py value))
  | .float =>
    match py.parseFloat value with
    | some x => .ok (.float x)
    | none => .error (.value s!"could not convert string to float: {PyText.repr py value}")
  | .str => .ok (.str value)

def seedDefaults (env : Env) : M Unit :=
  statement env .setSetting fun _ db => do
    let rows ← defaultSettings.mapM fun d => do
      return { key := d.key, value := ← serialize env.py d.value d.valueType,
               valueType := d.valueType : Setting }
    return ((), rows.foldl Db.seedSetting db, [])

def getRow (env : Env) (key : String) : M Setting :=
  query env .getSetting fun _ db => do
    text env key
    match lookup Setting.key key db.settings with
    | some row => return row
    | none => .error (.unknownSetting key)

def get (env : Env) (key : String) : M SettingValue := do
  let row ← getRow env key
  Coro.ofExcept (deserialize env.py row.value row.valueType)

def getBool (env : Env) (key : String) : M Bool := do
  match ← get env key with
  | .bool b => return b
  | _ => throw .assertion

def getInt (env : Env) (key : String) : M ℤ := do
  match ← get env key with
  | .int n => return n
  | _ => throw .assertion

def getStr (env : Env) (key : String) : M String := do
  match ← get env key with
  | .str s => return s
  | _ => throw .assertion

def set (env : Env) (key : String) (value : SettingValue) : M Unit := do
  let row ← getRow env key
  let newValue ← Coro.ofExcept (serialize env.py value row.valueType)
  statement env .setSetting fun _ db => do
    text env newValue
    return ((), db.updateSetting key newValue, [])

def all (env : Env) : M (List (String × SettingValue)) :=
  query env .allSettings fun _ db =>
    db.settings.mapM fun row => do
      return (row.key, ← deserialize env.py row.value row.valueType)

/-! What a read returns -/

/-- The value a read of the key finds, or the error it raises. -/
def readSetting (env : Env) (db : Db) (key : String) : Except PyErr SettingValue := do
  text env key
  match lookup Setting.key key db.settings with
  | some row => deserialize env.py row.value row.valueType
  | none => .error (.unknownSetting key)

variable {env : Env}

theorem run_get (key : String) (w : World) :
    (get env key).run w =
      (match env.dbFault w.tick with
        | some e => .error e
        | none => readSetting env w.db key, w.next) := by
  unfold get getRow query statement readSetting
  rw [Coro.run_bind, Coro.run_act]
  cases hfault : env.dbFault w.tick with
  | some e => rfl
  | none =>
    cases htext : text env key with
    | error e => rfl
    | ok u =>
      cases hrow : lookup Setting.key key w.db.settings with
      | none => simp [bind, Except.bind, Except.map, hrow]
      | some row => simp [bind, Except.bind, Except.map, pure, Except.pure, hrow, World.next]

/-- Asked with the server up, a bool setting is read as it is stored. -/
theorem run_getBool_ok {key : String} {w : World} {b : Bool} (hdb : env.dbFault w.tick = none)
    (h : readSetting env w.db key = .ok (.bool b)) : (getBool env key).run w = (.ok b, w.next) := by
  unfold getBool
  rw [Coro.run_bind, run_get, hdb, h]
  rfl

theorem run_getInt_ok {key : String} {w : World} {n : ℤ} (hdb : env.dbFault w.tick = none)
    (h : readSetting env w.db key = .ok (.int n)) : (getInt env key).run w = (.ok n, w.next) := by
  unfold getInt
  rw [Coro.run_bind, run_get, hdb, h]
  rfl

theorem lookup_updateSetting (db : Db) (key value k : String) :
    lookup Setting.key k (db.updateSetting key value).settings =
      (lookup Setting.key k db.settings).map fun r =>
        if r.key == key then { r with value := value } else r :=
  lookup_updateRows (f := fun r : Setting => { r with value := value }) k _ fun _ => rfl

/-- A write is not seen under another key. -/
theorem readSetting_updateSetting_of_ne {db : Db} {key value k : String} (h : k ≠ key) :
    readSetting env (db.updateSetting key value) k = readSetting env db k := by
  unfold readSetting
  rw [lookup_updateSetting]
  cases hrow : lookup Setting.key k db.settings with
  | none => rfl
  | some row =>
    have hkey : row.key = k := ((lookup_eq_some db.sound.setting_key).mp hrow).2
    have hne : row.key ≠ key := by rwa [hkey]
    simp [hne]

/-- A write with the server up. -/
theorem run_set {key : String} {value : SettingValue} {row : Setting} {w : World}
    (hup : ∀ t, w.tick ≤ t → env.dbFault t = none) (hkey : text env key = .ok ())
    (hrow : lookup Setting.key key w.db.settings = some row) :
    (set env key value).run w =
      match serialize env.py value row.valueType with
      | .error e => (.error e, w.next)
      | .ok newValue =>
        match text env newValue with
        | .error e => (.error e, w.next.next)
        | .ok _ => (.ok (), { w.next.next with db := w.db.updateSetting key newValue }) := by
  have hread : (getRow env key).run w = (.ok row, { w.next with log := w.log ++ [] }) := by
    apply run_query_ok (hup w.tick (le_refl _))
    rw [hkey, ok_bind, hrow]
    rfl
  have hnext : env.dbFault w.next.tick = none := hup _ (Nat.le_succ _)
  have hworld : { w.next with log := w.log ++ [] } = w.next := by simp [World.next]
  rw [hworld] at hread
  unfold set
  rw [Coro.run_bind_ok hread]
  cases hnew : serialize env.py value row.valueType with
  | error e => rfl
  | ok newValue =>
    rw [Coro.run_bind_ok (Coro.run_ofExcept _ _)]
    dsimp only
    cases htext : text env newValue with
    | error e =>
      exact @run_statement_error Unit env .setSetting w.next hnext (fun _ _ => .error e) e rfl
    | ok u =>
      have hwrite := @run_statement_ok Unit env .setSetting w.next hnext (fun _ db =>
        .ok ((), db.updateSetting key newValue, [])) () (w.db.updateSetting key newValue) [] rfl
      have hlog : w.next.log ++ [] = w.next.next.log := by simp [World.next]
      rw [hlog] at hwrite
      exact hwrite

/-! A setting that was read is stored so -/

section Reads
variable {key : String} {w w' : World}

theorem get_ok {v : SettingValue} (h : (get env key).run w = (.ok v, w')) :
    readSetting env w.db key = .ok v ∧ w' = w.next := by
  rw [run_get] at h
  split at h
  · cases h
  · obtain ⟨hread, hworld⟩ := Prod.mk.inj h
    exact ⟨hread, hworld.symm⟩

theorem getBool_ok {b : Bool} (h : (getBool env key).run w = (.ok b, w')) :
    readSetting env w.db key = .ok (.bool b) ∧ w' = w.next := by
  obtain ⟨v, w₁, hget, hvalue⟩ := Coro.run_bind_eq_ok h
  obtain ⟨hread, rfl⟩ := get_ok hget
  cases v with
  | bool b' =>
    cases hvalue
    exact ⟨hread, rfl⟩
  | _ => cases hvalue

theorem getInt_ok {n : ℤ} (h : (getInt env key).run w = (.ok n, w')) :
    readSetting env w.db key = .ok (.int n) ∧ w' = w.next := by
  obtain ⟨v, w₁, hget, hvalue⟩ := Coro.run_bind_eq_ok h
  obtain ⟨hread, rfl⟩ := get_ok hget
  cases v with
  | int n' =>
    cases hvalue
    exact ⟨hread, rfl⟩
  | _ => cases hvalue

theorem getStr_ok {s : String} (h : (getStr env key).run w = (.ok s, w')) :
    readSetting env w.db key = .ok (.str s) ∧ w' = w.next := by
  obtain ⟨v, w₁, hget, hvalue⟩ := Coro.run_bind_eq_ok h
  obtain ⟨hread, rfl⟩ := get_ok hget
  cases v with
  | str s' =>
    cases hvalue
    exact ⟨hread, rfl⟩
  | _ => cases hvalue

end Reads

/-- The server is up and the bool setting is stored as true. -/
def ReadsTrue (env : Env) (key : String) (w : World) : Prop :=
  env.dbFault w.tick = none ∧ readSetting env w.db key = .ok (.bool true)

/-- A bool setting is read as true exactly when it `ReadsTrue`. -/
theorem run_getBool_cases (key : String) (w : World) :
    (getBool env key).run w = (.ok true, w.next) ∧ ReadsTrue env key w ∨
      ¬ ReadsTrue env key w ∧ ∃ r, r ≠ .ok true ∧ (getBool env key).run w = (r, w.next) := by
  unfold getBool ReadsTrue
  rw [Coro.run_bind, run_get]
  cases hfault : env.dbFault w.tick with
  | some e => exact Or.inr ⟨by simp, .error e, by simp, rfl⟩
  | none =>
    cases hread : readSetting env w.db key with
    | error e => exact Or.inr ⟨by simp, .error e, by simp, rfl⟩
    | ok v =>
      cases v with
      | bool b =>
        cases b with
        | true => exact Or.inl ⟨rfl, rfl, rfl⟩
        | false => exact Or.inr ⟨by simp, .ok false, by simp, rfl⟩
      | _ => exact Or.inr ⟨by simp, .error .assertion, by simp, rfl⟩

end AoMarket.SettingsRepo
