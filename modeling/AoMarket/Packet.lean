import AoMarket.Environment
import Mathlib.Data.List.Induction

/-!
aochat/packet.py: the 4-byte header and the argument codecs. Encoding follows
OUT_SCHEMAS, decoding IN_SCHEMAS; struct.error and KeyError are the two ways to
fail. A slice that runs past the end of the data is silently shorter.
-/

namespace AoMarket.Packet

open Environment

abbrev Bytes := List UInt8

/-- Big-endian. -/
def natOfBytes (b : Bytes) : ℕ := b.foldl (fun n x => 256 * n + x.toNat) 0

def bytesOfNat : ℕ → ℕ → Bytes
  | 0, _ => []
  | width + 1, n => bytesOfNat width (n / 256) ++ [UInt8.ofNat (n % 256)]

/-- `struct.pack(">H", n)` for width 2, `">I"` for width 4. -/
def pack (width : ℕ) (n : ℤ) : Except PyErr Bytes :=
  if 0 ≤ n ∧ n < 256 ^ width then .ok (bytesOfNat width n.toNat) else .error .struct

/-- `struct.unpack_from` at the head of what is left. -/
def unpack (width : ℕ) (data : Bytes) : Except PyErr (ℕ × Bytes) :=
  if width ≤ data.length then .ok (natOfBytes (data.take width), data.drop width)
  else .error .struct

def utf8 (s : String) : Bytes := s.toList.flatMap String.utf8EncodeChar

@[simp] theorem length_bytesOfNat (width n : ℕ) : (bytesOfNat width n).length = width := by
  induction width generalizing n with
  | zero => rfl
  | succ width ih => simp [bytesOfNat, ih]

theorem natOfBytes_append (b : Bytes) (x : UInt8) :
    natOfBytes (b ++ [x]) = 256 * natOfBytes b + x.toNat := by
  simp [natOfBytes]

theorem natOfBytes_lt (b : Bytes) : natOfBytes b < 256 ^ b.length := by
  induction b using List.reverseRecOn with
  | nil => decide
  | append_singleton b x ih =>
    have hx : x.toNat < 256 := x.toNat_lt
    rw [natOfBytes_append, List.length_append, List.length_singleton, pow_succ]
    omega

theorem natOfBytes_bytesOfNat {width n : ℕ} (h : n < 256 ^ width) :
    natOfBytes (bytesOfNat width n) = n := by
  induction width generalizing n with
  | zero =>
    have hn : n = 0 := by simpa using h
    rw [hn]
    rfl
  | succ width ih =>
    have hdiv : n / 256 < 256 ^ width := by
      rw [pow_succ] at h
      exact Nat.div_lt_of_lt_mul (by omega)
    have hlast : (UInt8.ofNat (n % 256)).toNat = n % 256 := by
      rw [UInt8.toNat_ofNat']
      omega
    rw [bytesOfNat, natOfBytes_append, ih hdiv, hlast]
    omega

theorem bytesOfNat_natOfBytes (b : Bytes) : bytesOfNat b.length (natOfBytes b) = b := by
  induction b using List.reverseRecOn with
  | nil => rfl
  | append_singleton b x ih =>
    have hx : x.toNat < 256 := x.toNat_lt
    have hdiv : (256 * natOfBytes b + x.toNat) / 256 = natOfBytes b := by omega
    have hmod : (256 * natOfBytes b + x.toNat) % 256 = x.toNat := by omega
    rw [natOfBytes_append, List.length_append, List.length_singleton, bytesOfNat, hdiv, hmod, ih,
      UInt8.ofNat_toNat]

theorem pack_eq_ok {width : ℕ} {n : ℤ} {b : Bytes} :
    pack width n = .ok b ↔ (0 ≤ n ∧ n < 256 ^ width) ∧ b = bytesOfNat width n.toNat := by
  unfold pack
  split
  · next h => simp [h, eq_comm]
  · next h => simp [h]

/-- What a number was packed into is read back as that number. -/
theorem unpack_bytesOfNat {width n : ℕ} (h : n < 256 ^ width) (rest : Bytes) :
    unpack width (bytesOfNat width n ++ rest) = .ok (n, rest) := by
  have hlen := length_bytesOfNat width n
  unfold unpack
  rw [if_pos (by rw [List.length_append, hlen]; omega), List.take_left' hlen,
    List.drop_left' hlen, natOfBytes_bytesOfNat h]

/-! Packet types -/

def loginSeed : ℕ := 0
def loginRequest : ℕ := 2
def loginSelect : ℕ := 3
def loginOk : ℕ := 5
def loginError : ℕ := 6
def loginCharlist : ℕ := 7
def clientName : ℕ := 20
def clientLookup : ℕ := 21
def msgPrivate : ℕ := 30
def buddyLogonoff : ℕ := 40
def buddyAdd : ℕ := 40
def privgrpClijoin : ℕ := 55
def privgrpClipart : ℕ := 56
def privgrpMessage : ℕ := 57
def ping : ℕ := 100

/-- The schema letters I, S, i and s. -/
inductive Code where
  | int | str | ints | strs
deriving DecidableEq, Repr

def inSchemas : List (ℕ × List Code) :=
  [(loginSeed, [.str]), (loginOk, []), (loginError, [.str]),
   (loginCharlist, [.ints, .strs, .ints, .ints]), (clientName, [.int, .str]),
   (clientLookup, [.int, .str]), (msgPrivate, [.int, .str, .str]),
   (buddyLogonoff, [.int, .int, .str]), (privgrpClijoin, [.int, .int]),
   (privgrpClipart, [.int, .int]), (privgrpMessage, [.int, .int, .str, .str]),
   (ping, [.str])]

def outSchemas : List (ℕ × List Code) :=
  [(loginRequest, [.int, .str, .str]), (loginSelect, [.int]), (clientLookup, [.str]),
   (msgPrivate, [.int, .str, .str]), (buddyAdd, [.int, .str]),
   (privgrpMessage, [.int, .str, .str]), (ping, [.str])]

def schemaOf (schemas : List (ℕ × List Code)) (ptype : ℕ) : Except PyErr (List Code) :=
  match schemas.lookup ptype with
  | some schema => .ok schema
  | none => .error .key

/-! Outbound -/

inductive OutArg where
  | int (n : ℤ)
  | str (s : String)
  | bytes (b : Bytes)

def encodeArg : Code → OutArg → Except PyErr Bytes
  | .int, .int n => pack 4 n
  | .int, _ => .error .struct
  | .str, .str s => do return (← pack 2 (utf8 s).length) ++ utf8 s
  | .str, .bytes b => do return (← pack 2 b.length) ++ b
  -- bytes(n) is n zero bytes
  | .str, .int n =>
    if n < 0 then .error (.value "negative count")
    else do return (← pack 2 n.toNat) ++ List.replicate n.toNat 0
  | _, _ => .error (.value "Unsupported outbound arg type")

def encodeCodes : List Code → List OutArg → Except PyErr Bytes
  | [], _ => .ok []
  | _ :: _, [] => .error (.other "IndexError")
  | code :: codes, arg :: args => do return (← encodeArg code arg) ++ (← encodeCodes codes args)

def encodeArgs (ptype : ℕ) (args : List OutArg) : Except PyErr Bytes := do
  encodeCodes (← schemaOf outSchemas ptype) args

def encodeHeader (ptype payloadLen : ℕ) : Except PyErr Bytes := do
  return (← pack 2 ptype) ++ (← pack 2 payloadLen)

def encodePacket (ptype : ℕ) (args : List OutArg) : Except PyErr Bytes := do
  let payload ← encodeArgs ptype args
  return (← encodeHeader ptype payload.length) ++ payload

/-! Inbound -/

inductive InArg where
  | int (n : ℕ)
  | str (b : Bytes)
  | ints (ns : List ℕ)
  | strs (bs : List Bytes)
deriving DecidableEq, Repr

structure InboundPacket where
  type : ℕ
  args : List InArg
deriving DecidableEq, Repr

def decodeStr (data : Bytes) : Except PyErr (Bytes × Bytes) := do
  let (length, rest) ← unpack 2 data
  return (rest.take length, rest.drop length)

/-- `struct.unpack_from(f">{count}I", ...)`, which needs all of its bytes. -/
def decodeInts : ℕ → Bytes → Except PyErr (List ℕ × Bytes)
  | 0, data => .ok ([], data)
  | count + 1, data => do
    let (n, rest) ← unpack 4 data
    let (ns, rest) ← decodeInts count rest
    return (n :: ns, rest)

def decodeStrs : ℕ → Bytes → Except PyErr (List Bytes × Bytes)
  | 0, data => .ok ([], data)
  | count + 1, data => do
    let (b, rest) ← decodeStr data
    let (bs, rest) ← decodeStrs count rest
    return (b :: bs, rest)

def decodeArg : Code → Bytes → Except PyErr (InArg × Bytes)
  | .int, data => do
    let (n, rest) ← unpack 4 data
    return (.int n, rest)
  | .str, data => do
    let (b, rest) ← decodeStr data
    return (.str b, rest)
  | .ints, data => do
    let (count, rest) ← unpack 2 data
    let (ns, rest) ← decodeInts count rest
    return (.ints ns, rest)
  | .strs, data => do
    let (count, rest) ← unpack 2 data
    let (bs, rest) ← decodeStrs count rest
    return (.strs bs, rest)

def decodeCodes : List Code → Bytes → Except PyErr (List InArg)
  | [], _ => .ok []
  | code :: codes, data => do
    let (arg, rest) ← decodeArg code data
    return arg :: (← decodeCodes codes rest)

def decodeArgs (ptype : ℕ) (data : Bytes) : Except PyErr (List InArg) := do
  decodeCodes (← schemaOf inSchemas ptype) data

def decodePacket (ptype : ℕ) (payload : Bytes) : Except PyErr InboundPacket := do
  return { type := ptype, args := ← decodeArgs ptype payload }

def decodeHeader (data : Bytes) : Except PyErr (ℕ × ℕ) := do
  let (ptype, rest) ← unpack 2 data
  let (plen, _) ← unpack 2 rest
  return (ptype, plen)

end AoMarket.Packet
