import Mathlib.Algebra.Group.Basic

/-!
Block ciphers made of rounds that shift one half of a block by a function of the
other, and the chaining that mixes each block with the ciphertext before it. A
round is undone by shifting back, whatever the functions are, and a chain is
undone block by block.
-/

namespace AoMarket.BlockCipher

section Rounds
variable {W : Type} [AddGroup W]

def round (F G : W → W) (block : W × W) : W × W :=
  let left := block.1 + F block.2
  (left, block.2 + G left)

def unround (F G : W → W) (block : W × W) : W × W :=
  let right := block.2 - G block.1
  (block.1 - F right, right)

@[simp] theorem unround_round (F G : W → W) (block : W × W) :
    unround F G (round F G block) = block := by
  simp [unround, round]

@[simp] theorem round_unround (F G : W → W) (block : W × W) :
    round F G (unround F G block) = block := by
  simp [unround, round]

/-- `n` rounds, each under the schedule value that `next` makes of the last. -/
def rounds {S : Type} (next : S → S) (F G : S → W → W) : ℕ → S → W × W → W × W
  | 0, _, block => block
  | n + 1, s, block => rounds next F G n (next s) (round (F (next s)) (G (next s)) block)

def unrounds {S : Type} (next : S → S) (F G : S → W → W) : ℕ → S → W × W → W × W
  | 0, _, block => block
  | n + 1, s, block => unround (F (next s)) (G (next s)) (unrounds next F G n (next s) block)

theorem unrounds_rounds {S : Type} (next : S → S) (F G : S → W → W) (n : ℕ) (s : S)
    (block : W × W) : unrounds next F G n s (rounds next F G n s block) = block := by
  induction n generalizing s block with
  | zero => rfl
  | succ n ih => rw [rounds, unrounds, ih, unround_round]

theorem rounds_unrounds {S : Type} (next : S → S) (F G : S → W → W) (n : ℕ) (s : S)
    (block : W × W) : rounds next F G n s (unrounds next F G n s block) = block := by
  induction n generalizing s block with
  | zero => rfl
  | succ n ih => rw [unrounds, rounds, round_unround, ih]

theorem rounds_bijective {S : Type} (next : S → S) (F G : S → W → W) (n : ℕ) (s : S) :
    Function.Bijective (rounds next F G n s) := by
  constructor
  · exact Function.LeftInverse.injective (unrounds_rounds next F G n s)
  · exact Function.RightInverse.surjective (rounds_unrounds next F G n s)

end Rounds

section Chain
variable {B : Type} {mix : B → B → B} {encrypt decrypt : B → B}

/-- Each block is mixed with the ciphertext before it, then encrypted. -/
def chain (mix : B → B → B) (encrypt : B → B) : B → List B → List B
  | _, [] => []
  | previous, block :: rest =>
    let cipher := encrypt (mix block previous)
    cipher :: chain mix encrypt cipher rest

def unchain (mix : B → B → B) (decrypt : B → B) : B → List B → List B
  | _, [] => []
  | previous, cipher :: rest => mix (decrypt cipher) previous :: unchain mix decrypt cipher rest

/-- Decryption with the same chaining undoes encryption, block by block. -/
theorem unchain_chain (hmix : ∀ block previous, mix (mix block previous) previous = block)
    (hcrypt : ∀ block, decrypt (encrypt block) = block) (previous : B) (blocks : List B) :
    unchain mix decrypt previous (chain mix encrypt previous blocks) = blocks := by
  induction blocks generalizing previous with
  | nil => rfl
  | cons block rest ih => rw [chain, unchain, hcrypt, hmix, ih]

theorem length_chain (previous : B) (blocks : List B) :
    (chain mix encrypt previous blocks).length = blocks.length := by
  induction blocks generalizing previous with
  | nil => rfl
  | cons block rest ih => rw [chain, List.length_cons, List.length_cons, ih]

/-- Each ciphertext block is made of the block at its place and the ciphertext before it. -/
theorem getD_chain {blocks : List B} {i : ℕ} (h : i < blocks.length) (previous d : B) :
    (chain mix encrypt previous blocks).getD i d =
      encrypt (mix (blocks.getD i d) ((previous :: chain mix encrypt previous blocks).getD i d)) := by
  induction blocks generalizing previous i with
  | nil => exact absurd h (Nat.not_lt_zero i)
  | cons block rest ih =>
    cases i with
    | zero => rfl
    | succ i =>
      have hi : i < rest.length := Nat.lt_of_succ_lt_succ h
      rw [chain, List.getD_cons_succ, List.getD_cons_succ, List.getD_cons_succ, ih hi]

/-- Two ciphertext blocks are equal when what was encrypted is. -/
theorem chain_eq_iff (hcrypt : Function.Injective encrypt) {blocks : List B} {i j : ℕ}
    (hi : i < blocks.length) (hj : j < blocks.length) (previous d : B) :
    (chain mix encrypt previous blocks).getD i d = (chain mix encrypt previous blocks).getD j d ↔
      mix (blocks.getD i d) ((previous :: chain mix encrypt previous blocks).getD i d) =
        mix (blocks.getD j d) ((previous :: chain mix encrypt previous blocks).getD j d) := by
  rw [getD_chain hi, getD_chain hj]
  exact hcrypt.eq_iff

end Chain

end AoMarket.BlockCipher
