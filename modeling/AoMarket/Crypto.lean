import AoMarket.BlockCipher
import AoMarket.HexText
import AoMarket.Packet
import Mathlib.Data.BitVec

/-!
aochat/crypto.py: the half Diffie-Hellman exchange and the login blob. Words are
32 bits wide and little-endian. The server's side is stated here too: what it can
do with its secret exponent and the text the client sends.
-/

namespace AoMarket.Crypto

open Environment Packet BlockCipher HexText

/-- DH_Y, DH_N and DH_G: the server's public key, the prime and the generator. -/
structure DhParams where
  Y : ℕ
  N : ℕ
  G : ℕ

def dhN : ℕ :=
  0xeca2e8c85d863dcdc26a429a71a9815ad052f6139669dd659f98ae159d313d13c6bf2838e10a69b6478b64a24bd054ba8248e8fa778703b418408249440b2c1edd28853e240d8a7e49540b76d120d3b1ad2878b1b99490eb4a2a5e84caa8a91cecbdb1aa7c816e8be343246f80c637abc653b893fd91686cf8d32d6cfe5f2a6f

def protocolParams : DhParams where
  Y :=
    0x9c32cc23d559ca90fc31be72df817d0e124769e809f936bc14360ff4bed758f260a0d596584eacbbc2b88bdd410416163e11dbf62173393fbc0c6fefb2d855f1a03dec8e9f105bbad91b3437d8eb73fe2f44159597aa4053cf788d2f9d7012fb8d7c4ce3876f7d6cd5d0c31754f4cd96166708641958de54a6def5657b9f2e92
  N := dhN
  G := 5

abbrev Word := BitVec 32

structure KeyWords where
  k1 : Word
  k2 : Word
  k3 : Word
  k4 : Word

def teaDelta : Word := 0x9E3779B9

def teaRounds : ℕ := 32

/-- `term1 ^ term2` for one half of the block. -/
def mixTerms (k k' c x : Word) : Word :=
  ((((x <<< 4) &&& 0xFFFFFFF0) + k) ^^^ (x + c)) ^^^ (((x >>> 5) &&& 0x07FFFFFF) + k')

def permute (key : KeyWords) (block : Word × Word) : Word × Word :=
  rounds (· + teaDelta) (mixTerms key.k1 key.k2) (mixTerms key.k3 key.k4) teaRounds 0 block

/-! `struct` with "<I" -/

def wordOfBytes (b : Bytes) : Word := BitVec.ofNat 32 (natOfBytes b.reverse)

def bytesOfWord (w : Word) : Bytes := (bytesOfNat 4 w.toNat).reverse

def words : Bytes → List Word
  | b0 :: b1 :: b2 :: b3 :: rest => wordOfBytes [b0, b1, b2, b3] :: words rest
  | _ => []

def pairs : List Word → List (Word × Word)
  | w :: w' :: rest => (w, w') :: pairs rest
  | _ => []

/-- `struct.unpack("<4I", ...)`. -/
def keyWords (b : Bytes) : Except PyErr KeyWords :=
  match words b with
  | [k1, k2, k3, k4] => if b.length = 16 then .ok ⟨k1, k2, k3, k4⟩ else .error .struct
  | _ => .error .struct

def xorBlock (a b : Word × Word) : Word × Word := (a.1 ^^^ b.1, a.2 ^^^ b.2)

/-- `bytes.fromhex`. -/
def fromHex (l : List Char) : Except PyErr Bytes :=
  match bytesOfHex l with
  | some b => .ok b
  | none => .error (.value "non-hexadecimal number found in fromhex() arg")

def bytesOfBlocks (blocks : List (Word × Word)) : Bytes :=
  blocks.flatMap fun b => bytesOfWord b.1 ++ bytesOfWord b.2

def aochatCrypt (keyHex : List Char) (plain : Bytes) : Except PyErr (List Char) := do
  if keyHex.length ≠ 32 then
    throw (.value "key_hex must be exactly 32 hex characters (16 bytes)")
  if plain.length % 8 ≠ 0 then
    throw (.value "plain must be a multiple of 8 bytes")
  let key ← keyWords (← fromHex keyHex)
  let ciphers := chain xorBlock (permute key) (0, 0) (pairs (words plain))
  return ciphers.flatMap fun c => hexOfBytes (bytesOfWord c.1) ++ hexOfBytes (bytesOfWord c.2)

/-- The shared secret as 32 hex digits, zero-padded or cut. -/
def keyHexOf (k : ℕ) : List Char :=
  let digits := Nat.toDigits 16 k
  if digits.length < 32 then List.replicate (32 - digits.length) '0' ++ digits else digits.take 32

def loginString (serverSeed : Bytes) (username password : String) : Bytes :=
  utf8 username ++ utf8 "|" ++ serverSeed ++ utf8 "|" ++ utf8 password

/-- The number of spaces that make a length a multiple of 8. -/
def padLength (length : ℕ) : ℕ := (8 - length % 8) % 8

/-- `generate_login_key`; the exponent and the 8 random bytes are drawn outside. -/
def generateLoginKey (dh : DhParams) (serverSeed : Bytes) (username password : String) (dhX : ℕ)
    (random : Bytes) : Except PyErr String := do
  let capitalX := dh.G ^ dhX % dh.N
  let dhK := dh.Y ^ dhX % dh.N
  let loginStr := loginString serverSeed username password
  let length := 8 + 4 + loginStr.length
  let pad : Bytes := List.replicate (padLength length) 32
  let plain := random ++ (← pack 4 loginStr.length) ++ loginStr ++ pad
  let crypted ← aochatCrypt (keyHexOf dhK) plain
  return String.ofList (Nat.toDigits 16 capitalX ++ '-' :: crypted)

/-! The server -/

def unpermute (key : KeyWords) (block : Word × Word) : Word × Word :=
  unrounds (· + teaDelta) (mixTerms key.k1 key.k2) (mixTerms key.k3 key.k4) teaRounds 0 block

/-- What a server with the exponent `y` reads in the login key. -/
def serverRead (dh : DhParams) (y : ℕ) (loginKey : String) : Option Bytes :=
  match loginKey.toList.span fun c => c ≠ '-' with
  | (left, '-' :: right) => do
    let capitalX ← natOfHex left
    let key ← (fromHex (keyHexOf (capitalX ^ y % dh.N)) >>= keyWords).toOption
    let ciphers ← bytesOfHex right
    return bytesOfBlocks (unchain xorBlock (unpermute key) (0, 0) (pairs (words ciphers)))
  | _ => none

/-! Words and bytes -/

theorem unpermute_permute (key : KeyWords) (block : Word × Word) :
    unpermute key (permute key block) = block := unrounds_rounds _ _ _ _ _ _

theorem xorBlock_cancel (a b : Word × Word) : xorBlock (xorBlock a b) b = a := by
  simp only [xorBlock, BitVec.xor_assoc, BitVec.xor_self, BitVec.xor_zero]

@[simp] theorem length_bytesOfWord (w : Word) : (bytesOfWord w).length = 4 := by
  simp [bytesOfWord]

theorem wordOfBytes_bytesOfWord (w : Word) : wordOfBytes (bytesOfWord w) = w := by
  have hw : w.toNat < 256 ^ 4 := w.isLt
  rw [wordOfBytes, bytesOfWord, List.reverse_reverse, natOfBytes_bytesOfNat hw, BitVec.ofNat_toNat,
    BitVec.setWidth_eq]

theorem bytesOfWord_wordOfBytes {b : Bytes} (h : b.length = 4) : bytesOfWord (wordOfBytes b) = b := by
  have hlt := natOfBytes_lt b.reverse
  rw [List.length_reverse, h] at hlt
  have hval : (wordOfBytes b).toNat = natOfBytes b.reverse := by
    rw [wordOfBytes, BitVec.toNat_ofNat]
    exact Nat.mod_eq_of_lt hlt
  have hlen : b.reverse.length = 4 := by rw [List.length_reverse, h]
  rw [bytesOfWord, hval, ← hlen, bytesOfNat_natOfBytes, List.reverse_reverse]

theorem words_append {b : Bytes} (h : b.length = 4) (rest : Bytes) :
    words (b ++ rest) = wordOfBytes b :: words rest := by
  match b, h with
  | [b0, b1, b2, b3], _ => rfl

theorem words_bytesOfWord (w : Word) (rest : Bytes) :
    words (bytesOfWord w ++ rest) = w :: words rest := by
  rw [words_append (length_bytesOfWord w), wordOfBytes_bytesOfWord]

/-- The words of a plaintext made of blocks are the blocks. -/
theorem pairs_words_bytesOfBlocks (blocks : List (Word × Word)) :
    pairs (words (bytesOfBlocks blocks)) = blocks := by
  induction blocks with
  | nil => rfl
  | cons b rest ih =>
    have hcons : bytesOfBlocks (b :: rest) =
        bytesOfWord b.1 ++ (bytesOfWord b.2 ++ bytesOfBlocks rest) := by
      simp [bytesOfBlocks]
    rw [hcons, words_bytesOfWord, words_bytesOfWord, pairs, ih]

/-- A text of whole blocks is the text of its blocks. -/
theorem bytesOfBlocks_pairs_words {m : ℕ} {b : Bytes} (h : b.length = 8 * m) :
    bytesOfBlocks (pairs (words b)) = b := by
  induction m generalizing b with
  | zero =>
    have hnil : b = [] := List.eq_nil_of_length_eq_zero (by omega)
    rw [hnil]
    rfl
  | succ m ih =>
    have hfirst : (b.take 4).length = 4 := by
      rw [List.length_take]
      omega
    have hsecond : ((b.drop 4).take 4).length = 4 := by
      rw [List.length_take, List.length_drop]
      omega
    have hrest : ((b.drop 4).drop 4).length = 8 * m := by
      rw [List.length_drop, List.length_drop]
      omega
    have hsplit : b = b.take 4 ++ ((b.drop 4).take 4 ++ (b.drop 4).drop 4) := by
      rw [List.take_append_drop, List.take_append_drop]
    have hpairs : pairs (words b) =
        (wordOfBytes (b.take 4), wordOfBytes ((b.drop 4).take 4)) ::
          pairs (words ((b.drop 4).drop 4)) := by
      conv_lhs => rw [hsplit, words_append hfirst, words_append hsecond]
      rfl
    have hcons : bytesOfBlocks (pairs (words b)) =
        bytesOfWord (wordOfBytes (b.take 4)) ++
          (bytesOfWord (wordOfBytes ((b.drop 4).take 4)) ++
            bytesOfBlocks (pairs (words ((b.drop 4).drop 4)))) := by
      rw [hpairs]
      simp [bytesOfBlocks]
    rw [hcons, bytesOfWord_wordOfBytes hfirst, bytesOfWord_wordOfBytes hsecond, ih hrest, ← hsplit]

/-! The key -/

theorem keyHexOf_length (k : ℕ) : (keyHexOf k).length = 32 := by
  unfold keyHexOf
  simp only
  split
  · rw [List.length_append, List.length_replicate]
    omega
  · rw [List.length_take]
    omega

theorem keyHexOf_isHex (k : ℕ) : ∀ c ∈ keyHexOf k, IsHex c := by
  intro c hc
  unfold keyHexOf at hc
  simp only at hc
  split at hc
  · rcases List.mem_append.mp hc with hzero | hdigit
    · exact ⟨0, by decide, List.eq_of_mem_replicate hzero⟩
    · exact isHex_of_mem_toDigits hdigit
  · exact isHex_of_mem_toDigits (List.mem_of_mem_take hc)

/-- The 32 digits of the shared secret are always four key words. -/
theorem keyWords_keyHexOf (k : ℕ) : ∃ key, (fromHex (keyHexOf k) >>= keyWords) = .ok key := by
  obtain ⟨b, hb, hlen⟩ := bytesOfHex_of_hexValue (m := 16) (keyHexOf_length k)
    fun c hc => hexValue_isHex (keyHexOf_isHex k c hc)
  have hfrom : fromHex (keyHexOf k) = .ok b := by
    unfold fromHex
    rw [hb]
  rw [hfrom, ok_bind]
  match b, hlen with
  | [b0, b1, b2, b3, b4, b5, b6, b7, b8, b9, b10, b11, b12, b13, b14, b15], _ => exact ⟨_, rfl⟩

/-! What the client sends is what the server reads -/

theorem hexOfBytes_append (a b : Bytes) : hexOfBytes (a ++ b) = hexOfBytes a ++ hexOfBytes b := by
  simp [hexOfBytes]

theorem hexOfBytes_blocks (blocks : List (Word × Word)) :
    (blocks.flatMap fun c => hexOfBytes (bytesOfWord c.1) ++ hexOfBytes (bytesOfWord c.2)) =
      hexOfBytes (bytesOfBlocks blocks) := by
  induction blocks with
  | nil => rfl
  | cons c rest ih =>
    have hcons : bytesOfBlocks (c :: rest) =
        bytesOfWord c.1 ++ bytesOfWord c.2 ++ bytesOfBlocks rest := by
      simp [bytesOfBlocks]
    rw [List.flatMap_cons, ih, hcons, hexOfBytes_append, hexOfBytes_append]

/-- On a padded plaintext the cipher succeeds, and is the chained encryption under the words of
the key. -/
theorem aochatCrypt_ok (k : ℕ) {plain : Bytes} (hlen : plain.length % 8 = 0) :
    ∃ key, (fromHex (keyHexOf k) >>= keyWords) = .ok key ∧
      aochatCrypt (keyHexOf k) plain =
        .ok (hexOfBytes (bytesOfBlocks
          (chain xorBlock (permute key) (0, 0) (pairs (words plain))))) := by
  obtain ⟨key, hkey⟩ := keyWords_keyHexOf k
  obtain ⟨b, hb, hwords⟩ := except_bind_eq_ok.mp hkey
  refine ⟨key, hkey, ?_⟩
  unfold aochatCrypt
  rw [if_neg (by rw [keyHexOf_length]; omega), if_neg (by omega), hb]
  simp only [ok_bind, hwords, hexOfBytes_blocks]
  rfl

/-- The two ends of the exchange hold the same secret. -/
theorem secret_agrees {dh : DhParams} {y : ℕ} (hY : dh.Y = dh.G ^ y % dh.N) (x : ℕ) :
    (dh.G ^ x % dh.N) ^ y % dh.N = dh.Y ^ x % dh.N := by
  rw [hY, ← Nat.pow_mod, ← Nat.pow_mod, ← Nat.pow_mul, ← Nat.pow_mul, Nat.mul_comm]

theorem span_minus (n : ℕ) (rest : List Char) :
    (Nat.toDigits 16 n ++ '-' :: rest).span (fun c => c ≠ '-') =
      (Nat.toDigits 16 n, '-' :: rest) := by
  have hdigits : ∀ c ∈ Nat.toDigits 16 n, decide (c ≠ '-') = true := by
    intro c hc
    simpa using isHex_ne_minus (isHex_of_mem_toDigits hc)
  rw [List.span_eq_takeWhile_dropWhile, List.takeWhile_append_of_pos hdigits,
    List.dropWhile_append_of_pos hdigits]
  simp

/-- Both sides form the same secret, G^(xy) mod N, so the server reads what the client
has encrypted. -/
theorem serverRead_loginKey {dh : DhParams} {y : ℕ} (hY : dh.Y = dh.G ^ y % dh.N) (x : ℕ)
    {plain : Bytes} (hlen : plain.length % 8 = 0) :
    ∃ crypted, aochatCrypt (keyHexOf (dh.Y ^ x % dh.N)) plain = .ok crypted ∧
      serverRead dh y (String.ofList (Nat.toDigits 16 (dh.G ^ x % dh.N) ++ '-' :: crypted)) =
        some plain := by
  obtain ⟨key, hkey, hcrypt⟩ := aochatCrypt_ok (dh.Y ^ x % dh.N) hlen
  refine ⟨_, hcrypt, ?_⟩
  have hblocks : plain.length = 8 * (plain.length / 8) := by omega
  have hundo := unchain_chain xorBlock_cancel (unpermute_permute key) (0, 0) (pairs (words plain))
  unfold serverRead
  rw [String.toList_ofList, span_minus]
  simp only [natOfHex_toDigits, bytesOfHex_hexOfBytes, Option.bind_eq_bind, Option.bind_some,
    secret_agrees hY, hkey, Except.toOption]
  rw [pairs_words_bytesOfBlocks, hundo, bytesOfBlocks_pairs_words hblocks]
  rfl

theorem padded_length (n : ℕ) : (8 + 4 + n + padLength (8 + 4 + n)) % 8 = 0 := by
  unfold padLength
  omega

/-- A server with the secret exponent of its public key reads, in every login key,
the length of the login string and the login string, followed by fewer than 8 spaces. -/
theorem server_reads_login {dh : DhParams} {y : ℕ} (hY : dh.Y = dh.G ^ y % dh.N)
    (serverSeed : Bytes) (username password : String) (x : ℕ) {random : Bytes}
    (hrandom : random.length = 8)
    (hlogin : (loginString serverSeed username password).length < 2 ^ 32) :
    ∃ loginKey plain, generateLoginKey dh serverSeed username password x random = .ok loginKey ∧
      serverRead dh y loginKey = some plain ∧ plain.length % 8 = 0 ∧
      natOfBytes ((plain.drop 8).take 4) = (loginString serverSeed username password).length ∧
      (plain.drop 12).take (loginString serverSeed username password).length =
        loginString serverSeed username password ∧
      ∃ m < 8, plain.drop (12 + (loginString serverSeed username password).length) =
        List.replicate m 32 := by
  set login := loginString serverSeed username password with hlogindef
  set lengthBytes := bytesOfNat 4 login.length with hbytes
  set pad : Bytes := List.replicate (padLength (8 + 4 + login.length)) 32 with hpad
  have hfour : lengthBytes.length = 4 := length_bytesOfNat 4 login.length
  have hword : login.length < 256 ^ 4 := by omega
  have hpack : pack 4 (login.length : ℤ) = .ok lengthBytes := by
    refine pack_eq_ok.mpr ⟨⟨by omega, by norm_num; omega⟩, ?_⟩
    rw [Int.toNat_natCast]
  have hplain : (random ++ lengthBytes ++ login ++ pad).length % 8 = 0 := by
    have := padded_length login.length
    simp only [List.length_append, hrandom, hfour, hpad, List.length_replicate]
    omega
  obtain ⟨crypted, hcrypt, hread⟩ := serverRead_loginKey hY x hplain
  have htwelve : (random ++ lengthBytes).length = 12 := by
    rw [List.length_append, hrandom, hfour]
  refine ⟨_, _, ?_, hread, hplain, ?_, ?_, ?_⟩
  · unfold generateLoginKey
    simp only [← hlogindef, hpack, ok_bind, ← hpad, hcrypt]
    rfl
  · rw [List.append_assoc, List.append_assoc, List.drop_left' hrandom, List.take_left' hfour,
      hbytes, natOfBytes_bytesOfNat hword]
  · rw [List.append_assoc, List.drop_left' htwelve, List.take_left]
  · refine ⟨padLength (8 + 4 + login.length), Nat.mod_lt _ (by omega), ?_⟩
    rw [List.drop_left' (by rw [List.length_append, htwelve])]

def seventhPower : DhParams := ⟨5 ^ 7 % dhN, dhN, 5⟩

theorem seventhPower_reads_login :
    ∃ loginKey plain,
      generateLoginKey seventhPower [1, 2, 3] "tara" "secret" 11 [0, 1, 2, 3, 4, 5, 6, 7] =
        .ok loginKey ∧
      serverRead seventhPower 7 loginKey = some plain ∧ plain.length % 8 = 0 ∧
      natOfBytes ((plain.drop 8).take 4) = (loginString [1, 2, 3] "tara" "secret").length ∧
      (plain.drop 12).take (loginString [1, 2, 3] "tara" "secret").length =
        loginString [1, 2, 3] "tara" "secret" ∧
      ∃ m < 8, plain.drop (12 + (loginString [1, 2, 3] "tara" "secret").length) =
        List.replicate m 32 :=
  server_reads_login rfl [1, 2, 3] "tara" "secret" 11 rfl (by decide)

end AoMarket.Crypto
