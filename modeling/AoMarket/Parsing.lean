import AoMarket.Environment
import AoMarket.Regex

/-!
market/parsing.py. Credits go through floats: `fl` is the rounding of an exact
result to a float (`double` for CPython, `some` for exact arithmetic), with
`none` for overflow.
-/

namespace AoMarket.Parsing

open PyNumber PyText Regex Environment

section Credits
variable (fl : ℚ → Option ℚ)

def finite (q : ℚ) : Except PyErr ℚ :=
  match fl q with
  | some x => .ok x
  | none => .error .overflow

/-- `f"{round(x, 1)}"`: below 10^14 the float nearest to `k / 10` prints as that decimal. -/
def tenths (py : Runtime) (x : ℚ) : String :=
  let k := roundHalfEven (10 * x)
  if k < 10 ^ 15 then s!"{k / 10}.{k % 10}"
  else py.floatRepr (.fin ((fl (k / 10)).getD x))

/-- `f"{x:,.0f}"` below 1000. -/
def grouped (x : ℚ) : String :=
  let n := roundHalfEven x
  if n = 1000 then "1,000" else toString n

def formatCredits (py : Runtime) (value : PyNum) : Except PyErr String :=
  match value.value with
  | .nan => .ok "nan"
  | .posInf => .ok "infb"
  | .negInf => .ok "-infb"
  | .fin q => do
    let sign := if q < 0 then "-" else ""
    let a := |q|
    if 1000000000 ≤ a then
      return sign ++ tenths fl py (← finite fl (a / 1000000000)) ++ "b"
    else if 1000000 ≤ a then
      return sign ++ tenths fl py (← finite fl (a / 1000000)) ++ "m"
    else if 1000 ≤ a then
      return sign ++ tenths fl py (← finite fl (a / 1000)) ++ "k"
    else return sign ++ grouped a

/-- Decimal digits with an optional fraction, exactly. -/
def decimalValue (s : String) : ℚ :=
  let intPart := s.toList.takeWhile fun c => c != '.'
  let fraction := (s.toList.dropWhile fun c => c != '.').drop 1
  let digits := (intPart ++ fraction).filterMap digitValue
  (digits.foldl (fun n d => 10 * n + d) 0 : ℕ) / (10 ^ fraction.length : ℕ)

def unit : Re := .char fun c => foldLetter c ∈ ['k', 'm', 'b']

/-- `^([0-9]+(?:\.[0-9]+)?)\s*([kmb]?)$`. -/
def creditRe : Re :=
  .all [.group 1 (.seq digit.plus (.opt (.seq (.char fun c => c == '.') digit.plus))),
    .star space, .group 2 unit.opt, .dollar]

def multiplier (letter : String) : ℚ :=
  match letter.toList.map foldLetter with
  | ['k'] => 1000
  | ['m'] => 1000000
  | ['b'] => 1000000000
  | _ => 1

def parseCredits (value : String) : Except PyErr (Option ℤ) :=
  let value := strip value
  if value = "" then .ok none
  else
    match creditRe.matchStart value with
    | none => .ok none
    | some gs => do
      let number ← finite fl (decimalValue ((groupOf gs 1).getD ""))
      let number ← finite fl (number * multiplier ((groupOf gs 2).getD ""))
      return some (roundHalfEven number)

end Credits

/-- `^[0-9]+$`. -/
def qlRe : Re := .all [digit.plus, .dollar]

def parseQl (py : Runtime) (value : String) : Except PyErr (Option ℤ) :=
  let value := strip value
  if value = "" ∨ (qlRe.matchStart value).isNone then .ok none
  else
    match parseInt py.decimal value with
    | some n => .ok (some n)
    | none => .error (.value "Exceeds the limit for integer string conversion")

def notDash : Re := .char fun c => c != '-'

/-- `^([^-]*)-([^-]*)$`. -/
def rangeRe : Re :=
  .all [.group 1 notDash.star, .char fun c => c == '-', .group 2 notDash.star, .dollar]

/-- A side left empty is `none`, a side the parser rejects ends the match. -/
def parseSide (parser : String → Except PyErr (Option ℤ)) (raw : String) :
    Except PyErr (Option (Option ℤ)) := do
  if raw = "" then
    return some none
  match ← parser raw with
  | none => return none
  | some n => return some (some n)

def parseRange (spec : String) (parser : String → Except PyErr (Option ℤ)) :
    Except PyErr (Option (Option ℤ × Option ℤ)) :=
  match rangeRe.matchStart (strip spec) with
  | none => .ok none
  | some gs => do
    let some minValue ← parseSide parser (strip ((groupOf gs 1).getD "")) | return none
    let some maxValue ← parseSide parser (strip ((groupOf gs 2).getD "")) | return none
    match minValue, maxValue with
    | none, none => return none
    | some lo, some hi => if hi < lo then return none else return some (some lo, some hi)
    | lo, hi => return some (lo, hi)

end AoMarket.Parsing
