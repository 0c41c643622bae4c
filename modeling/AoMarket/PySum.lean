import AoMarket.Rendering

/-!
`sum()` of a list json.loads built. Integers are added exactly up to the first float;
from there on each addition is one of doubles, and an integer that has no double raises
OverflowError. With `compensatedSum`, as in Python 3.14, the additions of doubles carry a
correction, unless a sum of integers left 64 bits before the first float; without it they
are plain, as up to Python 3.11.
-/

namespace AoMarket.PySum

open PyNumber PyText Environment Rendering

def orOverflow {α : Type} : Option α → Except PyErr α
  | some a => .ok a
  | none => .error .overflow

/-- One `+` after the other. -/
def sumPlain : PyNum → List PyVal → Except PyErr PyNum
  | total, [] => .ok total
  | total, v :: rest => do
    let x ← orTypeError v.num?
    let total ← orOverflow (total.add x)
    sumPlain total rest

/-- bltinmodule.c's `CompensatedSum`. -/
structure CompensatedSum where
  hi : PyFloat
  lo : PyFloat

namespace CompensatedSum

/-- `cs_add`. -/
def add (s : CompensatedSum) (x : PyFloat) : CompensatedSum :=
  let t := s.hi.add x
  let hi := s.hi.abs
  let lost := if x.abs.lt hi || x.abs.eq hi then (s.hi.sub t).add x else (x.sub t).add s.hi
  { hi := t, lo := s.lo.add lost }

/-- `cs_to_double`: a correction that is infinite or nan is left out. -/
def toFloat (s : CompensatedSum) : PyFloat :=
  match s.lo with
  | .fin q => if q = 0 then s.hi else s.hi.add (.fin q)
  | _ => s.hi

end CompensatedSum

def sumFloats : CompensatedSum → List PyVal → Except PyErr PyNum
  | total, [] => .ok (.float total.toFloat)
  | total, v :: rest => do
    let n ← orTypeError v.num?
    let x ← orOverflow n.toFloat
    sumFloats (total.add x) rest

def isLong (n : ℤ) : Bool := -2 ^ 63 ≤ n ∧ n < 2 ^ 63

/-- The loop over machine integers, and what it falls back to. -/
def sumLongs : ℤ → List PyVal → Except PyErr PyNum
  | total, [] => .ok (.int total)
  | total, v :: rest => do
    let n ← orTypeError v.num?
    match n with
    | .int k =>
      if isLong k && isLong (total + k) then sumLongs (total + k) rest
      else sumPlain (.int (total + k)) rest
    | .float x =>
      let first ← orOverflow (PyNum.toFloat (.int total))
      sumFloats { hi := first.add x, lo := .fin 0 } rest

def sum (py : Runtime) (values : List PyVal) : Except PyErr PyNum :=
  if py.compensatedSum then sumLongs 0 values else sumPlain (.int 0) values

/-- The first addition has to convert an integer that no float holds. -/
example : sum .ascii [.num (.int (10 ^ 400)), .num (.float (.fin (3 / 2)))] = .error .overflow := by
  decide +kernel

/-- Two finite prices whose sum is no finite float. -/
example : sum .ascii [.num (.float (.fin (2 ^ 1023))), .num (.float (.fin (2 ^ 1023)))] =
    .ok (.float .posInf) := by
  decide +kernel

/-! Integers -/

def ints (ns : List ℤ) : List PyVal := ns.map fun n => .num (.int n)

theorem sumPlain_ints (total : ℤ) (ns : List ℤ) :
    sumPlain (.int total) (ints ns) = .ok (.int (total + ns.sum)) := by
  induction ns generalizing total with
  | nil => simp [ints, sumPlain]
  | cons n rest ih =>
    have hrest := ih (total + n)
    rw [List.sum_cons, ← add_assoc]
    exact hrest

theorem sumLongs_ints (total : ℤ) (ns : List ℤ) :
    sumLongs total (ints ns) = .ok (.int (total + ns.sum)) := by
  induction ns generalizing total with
  | nil => simp [ints, sumLongs]
  | cons n rest ih =>
    have hstep : sumLongs total (ints (n :: rest)) =
        if isLong n && isLong (total + n) then sumLongs (total + n) (ints rest)
        else sumPlain (.int (total + n)) (ints rest) := rfl
    rw [hstep, ih, sumPlain_ints, ite_self, List.sum_cons, ← add_assoc]

/-- A sum of integers is exact, whatever its size. -/
theorem sum_ints (py : Runtime) (ns : List ℤ) : sum py (ints ns) = .ok (.int ns.sum) := by
  unfold sum
  split
  · rw [sumLongs_ints, zero_add]
  · rw [sumPlain_ints, zero_add]

end AoMarket.PySum
