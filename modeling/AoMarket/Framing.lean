import Mathlib.Data.List.Forall2

/-!
Readers of a stream. A reader takes one value off the front of a list and hands
back what is left. `Reads` says that a code word is read as a value whatever
follows it, and then a row of code words is read as the row of their values.
-/

namespace AoMarket.Framing

variable {β ε α : Type}

abbrev Reader (β ε α : Type) := List β → Except ε (α × List β)

/-- `read` takes exactly `code` off the front and returns `a`. -/
def Reads (read : Reader β ε α) (code : List β) (a : α) : Prop :=
  ∀ rest, read (code ++ rest) = .ok (a, rest)

def readMany (read : Reader β ε α) : ℕ → Reader β ε (List α)
  | 0, data => .ok ([], data)
  | count + 1, data => do
    let (a, rest) ← read data
    let (as, rest) ← readMany read count rest
    return (a :: as, rest)

theorem readMany_cons {read : Reader β ε α} {data rest : List β} {a : α}
    (h : read data = .ok (a, rest)) (count : ℕ) :
    readMany read (count + 1) data = (readMany read count rest).map fun r => (a :: r.1, r.2) := by
  simp only [readMany, h, bind, Except.bind]
  cases readMany read count rest <;> rfl

/-- Values written one after the other are read one after the other. -/
theorem readMany_flatten {read : Reader β ε α} {codes : List (List β)} {as : List α}
    (h : List.Forall₂ (Reads read) codes as) :
    Reads (readMany read as.length) codes.flatten as := by
  induction h with
  | nil => exact fun _ => rfl
  | @cons code a codes as hhead _ ih =>
    intro rest
    rw [List.flatten_cons, List.append_assoc, List.length_cons, readMany_cons (hhead _), ih rest]
    rfl

end AoMarket.Framing
