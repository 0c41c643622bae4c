import AoMarket.Crypto

/-!
The login cipher as a permutation of texts. For every key the blocks are permuted,
equal ciphertexts come from equal plaintexts, and what a block of ciphertext tells
about the plaintext is the block mixed with the ciphertext before it.
-/

namespace AoMarket.CipherBlocks

open Environment Packet BlockCipher HexText Crypto

abbrev Block := Word × Word

/-! Blocks as bytes -/

def bytesOfBlock (b : Block) : Bytes := bytesOfWord b.1 ++ bytesOfWord b.2

def xorBytes (a b : Bytes) : Bytes := List.zipWith (· ^^^ ·) a b

def plainBlock (plain : Bytes) (i : ℕ) : Bytes := (plain.drop (8 * i)).take 8

def cipherBlock (cipher : List Char) (i : ℕ) : List Char := (cipher.drop (16 * i)).take 16

/-- The ciphertext block before block `i`, all zero before the first. -/
def blockBefore (cipher : List Char) : ℕ → Bytes
  | 0 => List.replicate 8 0
  | i + 1 => (bytesOfHex (cipherBlock cipher i)).getD []

theorem bytesOfNat_xor (width a b : ℕ) :
    bytesOfNat width (a ^^^ b) = xorBytes (bytesOfNat width a) (bytesOfNat width b) := by
  induction width generalizing a b with
  | zero => rfl
  | succ width ih =>
    have hdiv : (a ^^^ b) / 256 = a / 256 ^^^ b / 256 := Nat.xor_div_two_pow (n := 8)
    have hmod : (a ^^^ b) % 256 = a % 256 ^^^ b % 256 := Nat.xor_mod_two_pow (n := 8)
    have hlen : (bytesOfNat width (a / 256)).length = (bytesOfNat width (b / 256)).length := by
      rw [length_bytesOfNat, length_bytesOfNat]
    rw [bytesOfNat, bytesOfNat, bytesOfNat, hdiv, ih, hmod, UInt8.ofNat_xor, xorBytes, xorBytes,
      List.zipWith_append hlen]
    rfl

theorem bytesOfWord_xor (v w : Word) :
    bytesOfWord (v ^^^ w) = xorBytes (bytesOfWord v) (bytesOfWord w) := by
  have hlen : (bytesOfNat 4 v.toNat).length = (bytesOfNat 4 w.toNat).length := by
    rw [length_bytesOfNat, length_bytesOfNat]
  rw [bytesOfWord, BitVec.toNat_xor, bytesOfNat_xor, xorBytes, List.reverse_zipWith hlen]
  rfl

@[simp] theorem length_bytesOfBlock (b : Block) : (bytesOfBlock b).length = 8 := by
  simp [bytesOfBlock]

theorem bytesOfBlock_xor (a b : Block) :
    bytesOfBlock (xorBlock a b) = xorBytes (bytesOfBlock a) (bytesOfBlock b) := by
  have hlen : (bytesOfWord a.1).length = (bytesOfWord b.1).length := by
    rw [length_bytesOfWord, length_bytesOfWord]
  have happend : xorBytes (bytesOfBlock a) (bytesOfBlock b) =
      xorBytes (bytesOfWord a.1) (bytesOfWord b.1) ++ xorBytes (bytesOfWord a.2) (bytesOfWord b.2) :=
    List.zipWith_append hlen
  rw [happend, bytesOfBlock, xorBlock, bytesOfWord_xor, bytesOfWord_xor]

theorem bytesOfBlock_injective : Function.Injective bytesOfBlock := by
  intro a b h
  have hread : ∀ c : Block, pairs (words (bytesOfBlock c)) = [c] := by
    intro c
    have hone : bytesOfBlock c = bytesOfBlocks [c] := by simp [bytesOfBlock, bytesOfBlocks]
    rw [hone, pairs_words_bytesOfBlocks]
  have hlist : [a] = [b] := by rw [← hread a, ← hread b, h]
  exact (List.cons.inj hlist).1

theorem bytesOfBlocks_cons (b : Block) (rest : List Block) :
    bytesOfBlocks (b :: rest) = bytesOfBlock b ++ bytesOfBlocks rest := rfl

theorem length_bytesOfBlocks (blocks : List Block) :
    (bytesOfBlocks blocks).length = 8 * blocks.length := by
  induction blocks with
  | nil => rfl
  | cons b rest ih =>
    rw [bytesOfBlocks_cons, List.length_append, length_bytesOfBlock, ih, List.length_cons]
    omega

/-- The bytes of the blocks, eight at a time, are the bytes of each block. -/
theorem plainBlock_bytesOfBlocks {blocks : List Block} {i : ℕ} (h : i < blocks.length) (d : Block) :
    plainBlock (bytesOfBlocks blocks) i = bytesOfBlock (blocks.getD i d) := by
  unfold plainBlock
  induction blocks generalizing i with
  | nil => exact absurd h (Nat.not_lt_zero i)
  | cons b rest ih =>
    rw [bytesOfBlocks_cons]
    cases i with
    | zero =>
      rw [Nat.mul_zero, List.drop_zero, List.take_left' (length_bytesOfBlock b), List.getD_cons_zero]
    | succ i =>
      have hsplit : 8 * (i + 1) = 8 + 8 * i := by omega
      rw [hsplit, ← List.drop_drop, List.drop_left' (length_bytesOfBlock b), List.getD_cons_succ]
      exact ih (Nat.lt_of_succ_lt_succ h)

theorem drop_hexOfBytes (b : Bytes) (n : ℕ) : (hexOfBytes b).drop (2 * n) = hexOfBytes (b.drop n) := by
  induction n generalizing b with
  | zero => rfl
  | succ n ih =>
    cases b with
    | nil => rfl
    | cons x b =>
      have hsplit : 2 * (n + 1) = 2 + 2 * n := by omega
      rw [hsplit, ← List.drop_drop]
      exact ih b

theorem take_hexOfBytes (b : Bytes) (n : ℕ) : (hexOfBytes b).take (2 * n) = hexOfBytes (b.take n) := by
  have hsplit : hexOfBytes b = hexOfBytes (b.take n) ++ hexOfBytes (b.drop n) := by
    rw [← hexOfBytes_append, List.take_append_drop]
  by_cases hn : n ≤ b.length
  · have hlen : (hexOfBytes (b.take n)).length = 2 * n := by
      rw [length_hexOfBytes, List.length_take, Nat.min_eq_left hn]
    rw [hsplit, List.take_left' hlen]
  · have hlen : (hexOfBytes b).length ≤ 2 * n := by
      rw [length_hexOfBytes]
      omega
    rw [List.take_of_length_le hlen, List.take_of_length_le (by omega)]

theorem cipherBlock_hexOfBytes (b : Bytes) (i : ℕ) :
    cipherBlock (hexOfBytes b) i = hexOfBytes (plainBlock b i) := by
  have hsixteen : 16 * i = 2 * (8 * i) := by omega
  rw [cipherBlock, hsixteen, drop_hexOfBytes, plainBlock]
  exact take_hexOfBytes _ 8

theorem blockBefore_hexOfBytes {blocks : List Block} {i : ℕ} (h : i ≤ blocks.length) (d : Block) :
    blockBefore (hexOfBytes (bytesOfBlocks blocks)) i =
      bytesOfBlock (((0, 0) :: blocks).getD i d) := by
  cases i with
  | zero =>
    show List.replicate 8 0 = bytesOfBlock (0, 0)
    decide
  | succ i =>
    rw [blockBefore, cipherBlock_hexOfBytes, bytesOfHex_hexOfBytes, Option.getD_some,
      List.getD_cons_succ, plainBlock_bytesOfBlocks h]

/-! The cipher -/

theorem permute_bijective (key : KeyWords) : Function.Bijective (permute key) :=
  rounds_bijective _ _ _ _ _

/-- 32 hex digits, of either case, are four key words. -/
theorem keyWords_fromHex {keyHex : List Char} (hlen : keyHex.length = 32)
    (hhex : ∀ c ∈ keyHex, (hexValue c).isSome = true) :
    ∃ b key, fromHex keyHex = .ok b ∧ keyWords b = .ok key := by
  obtain ⟨b, hb, hlength⟩ := bytesOfHex_of_hexValue (m := 16) hlen hhex
  have hfrom : fromHex keyHex = .ok b := by
    unfold fromHex
    rw [hb]
  match b, hlength with
  | [b0, b1, b2, b3, b4, b5, b6, b7, b8, b9, b10, b11, b12, b13, b14, b15], _ =>
    exact ⟨_, _, hfrom, rfl⟩

def encrypted (key : KeyWords) (plain : Bytes) : List Block :=
  chain xorBlock (permute key) (0, 0) (pairs (words plain))

theorem aochatCrypt_key {keyHex : List Char} (hlen : keyHex.length = 32)
    (hhex : ∀ c ∈ keyHex, (hexValue c).isSome = true) :
    ∃ key, ∀ plain : Bytes, plain.length % 8 = 0 →
      aochatCrypt keyHex plain = .ok (hexOfBytes (bytesOfBlocks (encrypted key plain))) := by
  obtain ⟨b, key, hfrom, hkey⟩ := keyWords_fromHex hlen hhex
  refine ⟨key, fun plain hplain => ?_⟩
  unfold aochatCrypt
  rw [if_neg (by omega), if_neg (by omega), hfrom]
  simp only [ok_bind, hkey, hexOfBytes_blocks]
  rfl

theorem blocks_of_plain {plain : Bytes} (h : plain.length % 8 = 0) :
    bytesOfBlocks (pairs (words plain)) = plain :=
  bytesOfBlocks_pairs_words (m := plain.length / 8) (by omega)

theorem encrypted_injective {key : KeyWords} {plain plain' : Bytes} (h : plain.length % 8 = 0)
    (h' : plain'.length % 8 = 0) (heq : encrypted key plain = encrypted key plain') :
    plain = plain' := by
  have hundo : ∀ p : Bytes, unchain xorBlock (unpermute key) (0, 0) (encrypted key p) =
      pairs (words p) := fun p =>
    unchain_chain xorBlock_cancel (unpermute_permute key) (0, 0) (pairs (words p))
  have hpairs : pairs (words plain) = pairs (words plain') := by rw [← hundo, ← hundo, heq]
  rw [← blocks_of_plain h, ← blocks_of_plain h', hpairs]

theorem length_encrypted {key : KeyWords} {plain : Bytes} (h : plain.length % 8 = 0) :
    8 * (encrypted key plain).length = plain.length := by
  rw [encrypted, length_chain, ← length_bytesOfBlocks, blocks_of_plain h]

def mixed (plain : Bytes) (cipher : List Char) (i : ℕ) : Bytes :=
  xorBytes (plainBlock plain i) (blockBefore cipher i)

/-- A block is mixed with the block of ciphertext before it, the first one with zero. -/
theorem mixed_encrypted {key : KeyWords} {plain : Bytes} (h : plain.length % 8 = 0) {i : ℕ}
    (hi : i < (pairs (words plain)).length) (d : Block) :
    mixed plain (hexOfBytes (bytesOfBlocks (encrypted key plain))) i =
      bytesOfBlock (xorBlock ((pairs (words plain)).getD i d)
        (((0, 0) :: encrypted key plain).getD i d)) := by
  have hle : i ≤ (encrypted key plain).length := by
    rw [encrypted, length_chain]
    omega
  have hplain : plainBlock plain i = bytesOfBlock ((pairs (words plain)).getD i d) := by
    rw [← plainBlock_bytesOfBlocks hi d, blocks_of_plain h]
  rw [mixed, hplain, blockBefore_hexOfBytes hle d, bytesOfBlock_xor]

theorem cipherBlock_encrypted {key : KeyWords} {plain : Bytes} {i j : ℕ}
    (hi : i < (encrypted key plain).length) (hj : j < (encrypted key plain).length) (d : Block) :
    cipherBlock (hexOfBytes (bytesOfBlocks (encrypted key plain))) i =
        cipherBlock (hexOfBytes (bytesOfBlocks (encrypted key plain))) j ↔
      (encrypted key plain).getD i d = (encrypted key plain).getD j d := by
  rw [cipherBlock_hexOfBytes, cipherBlock_hexOfBytes, plainBlock_bytesOfBlocks hi d,
    plainBlock_bytesOfBlocks hj d]
  exact (hexOfBytes_injective.comp bytesOfBlock_injective).eq_iff

/-- The round function permutes the blocks under every key. Under every key of 32 hex digits the
texts of whole blocks are encrypted injectively, into two digits for each byte, and two blocks
of ciphertext are equal exactly when what was mixed for them is. -/
theorem login_cipher_invertible :
    (∀ key : KeyWords, Function.Bijective (permute key)) ∧
      ∀ keyHex : List Char, keyHex.length = 32 → (∀ c ∈ keyHex, (hexValue c).isSome = true) →
        (∀ plain plain' : Bytes, plain.length % 8 = 0 → plain'.length % 8 = 0 →
          aochatCrypt keyHex plain = aochatCrypt keyHex plain' → plain = plain') ∧
        ∀ plain : Bytes, plain.length % 8 = 0 → ∃ cipher, aochatCrypt keyHex plain = .ok cipher ∧
          cipher.length = 2 * plain.length ∧ (∀ c ∈ cipher, IsHex c) ∧
          ∀ i j, 8 * i < plain.length → 8 * j < plain.length →
            (cipherBlock cipher i = cipherBlock cipher j ↔
              mixed plain cipher i = mixed plain cipher j) := by
  refine ⟨permute_bijective, fun keyHex hlen hhex => ?_⟩
  obtain ⟨key, hcrypt⟩ := aochatCrypt_key hlen hhex
  constructor
  · intro plain plain' h h' heq
    rw [hcrypt plain h, hcrypt plain' h'] at heq
    have hbytes := hexOfBytes_injective (Except.ok.inj heq)
    have hblocks : encrypted key plain = encrypted key plain' := by
      rw [← pairs_words_bytesOfBlocks (encrypted key plain), hbytes, pairs_words_bytesOfBlocks]
    exact encrypted_injective h h' hblocks
  · intro plain h
    have hlength := @length_encrypted key plain h
    have hpairs : (encrypted key plain).length = (pairs (words plain)).length := length_chain _ _
    refine ⟨_, hcrypt plain h, ?_, fun c hc => isHex_of_mem_hexOfBytes hc, fun i j hi hj => ?_⟩
    · rw [length_hexOfBytes, length_bytesOfBlocks, hlength]
    · have hi' : i < (encrypted key plain).length := by omega
      have hj' : j < (encrypted key plain).length := by omega
      rw [cipherBlock_encrypted hi' hj' (0, 0), mixed_encrypted h (hpairs ▸ hi') (0, 0),
        mixed_encrypted h (hpairs ▸ hj') (0, 0), bytesOfBlock_injective.eq_iff]
      exact chain_eq_iff (permute_bijective key).injective (hpairs ▸ hi') (hpairs ▸ hj') _ _

def zeroKey : List Char := List.replicate 32 '0'

def sameTwice : Bytes := List.replicate 16 7

theorem zero_key_encrypts : ∃ cipher, aochatCrypt zeroKey sameTwice = .ok cipher ∧
    (cipherBlock cipher 0 = cipherBlock cipher 1 ↔
      mixed sameTwice cipher 0 = mixed sameTwice cipher 1) := by
  have hhex : ∀ c ∈ zeroKey, (hexValue c).isSome = true := by
    intro c hc
    rw [List.eq_of_mem_replicate hc]
    rfl
  obtain ⟨cipher, hcrypt, _, _, hblocks⟩ := (login_cipher_invertible.2 zeroKey rfl hhex).2 sameTwice rfl
  exact ⟨cipher, hcrypt, hblocks 0 1 (by decide) (by decide)⟩

end AoMarket.CipherBlocks
