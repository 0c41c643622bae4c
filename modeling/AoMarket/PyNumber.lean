import Mathlib.Data.Rat.Floor

/-!
Python numbers: integers, and floats as exact rationals with the two infinities
and nan. `double` is the rounding of a rational to the nearest IEEE double, ties
to even; `none` is overflow. Comparison is exact across the two types, as in
Python; an operation on floats rounds its exact result, and one on an integer and
a float converts the integer first.
-/

namespace AoMarket.PyNumber

inductive PyFloat where
  | fin (q : ℚ)
  | posInf
  | negInf
  | nan
deriving DecidableEq

inductive PyNum where
  | int (n : ℤ)
  | float (x : PyFloat)
deriving DecidableEq

def roundHalfEven (q : ℚ) : ℤ :=
  let f := ⌊q⌋
  let d := q - f
  if d < 1 / 2 then f
  else if 1 / 2 < d then f + 1
  else if f % 2 = 0 then f else f + 1

def pow2 : ℤ → ℚ
  | .ofNat n => ((2 ^ n : ℕ) : ℚ)
  | .negSucc n => 1 / ((2 ^ (n + 1) : ℕ) : ℚ)

/-- The binary exponent of a positive rational. -/
def exponent (q : ℚ) : ℤ :=
  let e : ℤ := (q.num.natAbs.log2 : ℤ) - (q.den.log2 : ℤ)
  if pow2 e ≤ q then e else e - 1

def double (q : ℚ) : Option ℚ :=
  if q = 0 then some 0
  else
    let a := |q|
    let ulp := pow2 (max (exponent a) (-1022) - 52)
    let r := roundHalfEven (a / ulp) * ulp
    if r < pow2 1024 then some (if q < 0 then -r else r) else none

/-- `float(q)` for a value computed exactly. -/
def PyFloat.ofRat (q : ℚ) : PyFloat :=
  match double q with
  | some x => .fin x
  | none => if q < 0 then .negInf else .posInf

def PyFloat.lt : PyFloat → PyFloat → Bool
  | .fin a, .fin b => decide (a < b)
  | .negInf, .fin _ => true
  | .negInf, .posInf => true
  | .fin _, .posInf => true
  | _, _ => false

def PyFloat.eq : PyFloat → PyFloat → Bool
  | .nan, _ => false
  | a, b => decide (a = b)

def PyFloat.neg : PyFloat → PyFloat
  | .fin q => .fin (-q)
  | .posInf => .negInf
  | .negInf => .posInf
  | .nan => .nan

def PyFloat.abs : PyFloat → PyFloat
  | .fin q => .fin |q|
  | .negInf => .posInf
  | x => x

def PyFloat.add : PyFloat → PyFloat → PyFloat
  | .fin a, .fin b => .ofRat (a + b)
  | .nan, _ => .nan
  | _, .nan => .nan
  | .posInf, .negInf => .nan
  | .negInf, .posInf => .nan
  | .posInf, _ => .posInf
  | _, .posInf => .posInf
  | .negInf, _ => .negInf
  | _, .negInf => .negInf

def PyFloat.sub (a b : PyFloat) : PyFloat := a.add b.neg

/-- Division by a positive double. -/
def PyFloat.divBy : PyFloat → ℚ → PyFloat
  | .fin q, d => .ofRat (q / d)
  | x, _ => x

namespace PyNum

def value : PyNum → PyFloat
  | int n => .fin n
  | float x => x

def lt (a b : PyNum) : Bool := a.value.lt b.value

def eq (a b : PyNum) : Bool := a.value.eq b.value

def le (a b : PyNum) : Bool := a.lt b || a.eq b

@[simp] theorem lt_int (a b : ℤ) : lt (int a) (int b) = decide (a < b) := by
  simp [lt, value, PyFloat.lt]

@[simp] theorem eq_int (a b : ℤ) : eq (int a) (int b) = decide (a = b) := by
  simp [eq, value, PyFloat.eq]

@[simp] theorem le_int (a b : ℤ) : le (int a) (int b) = decide (a ≤ b) := by
  simp only [le, lt_int, eq_int, ← Bool.decide_or]
  exact decide_eq_decide.mpr le_iff_lt_or_eq.symm

/-- `float(n)`; `none` is OverflowError, which an integer too large for a double raises. -/
def toFloat : PyNum → Option PyFloat
  | int n => (double n).map .fin
  | float x => some x

/-- `a + b`; `none` is OverflowError. -/
def add : PyNum → PyNum → Option PyNum
  | int a, int b => some (int (a + b))
  | a, b => do
    let x ← a.toFloat
    let y ← b.toFloat
    return float (x.add y)

/-- `a / n` for a length `n`; `none` is OverflowError. The quotient of two integers is
rounded once, from its exact value. -/
def divLength (a : PyNum) (n : ℕ) : Option PyFloat :=
  match a with
  | int k => (double (k / n)).map .fin
  | float x => (double n).map x.divBy

end PyNum

/-! Times and durations in microseconds -/

def usPerDay : ℤ := 86400000000

def usPerMinute : ℤ := 60000000

/-- `timedelta(...)` of a whole number of microseconds; `none` is OverflowError. -/
def timedelta (us : ℤ) : Option ℤ :=
  if |us / usPerDay| ≤ 999999999 then some us else none

/-- Years 1 to 9999, in microseconds since 1970. -/
def minTime : ℤ := -62135596800000000

def maxTime : ℤ := 253402300799999999

/-- `t - d`; `none` is OverflowError. -/
def subTime (t d : ℤ) : Option ℤ :=
  if minTime ≤ t - d ∧ t - d ≤ maxTime then some (t - d) else none

end AoMarket.PyNumber
