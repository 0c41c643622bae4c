import AoMarket.Framing
import AoMarket.Packet

/-!
aochat/protocol.py. A connection is read as a stream of bytes that ends one way
or the other, and written as the bytes handed to the transport so far.
-/

namespace AoMarket.Connection

open Environment Packet Framing

/-- How the stream of inbound bytes ends. -/
inductive Ending where
  | eof
  | reset
deriving DecidableEq, Repr

/-- What a read raises that asks for more bytes than are left. -/
def Ending.error : Ending → PyErr
  | eof => .incompleteRead
  | reset => .connection

def readExactly (ending : Ending) (n : ℕ) : Reader UInt8 PyErr Bytes := fun data =>
  if n ≤ data.length then .ok (data.take n, data.drop n) else .error ending.error

/-- The first half of read_packet: a header and as many bytes as it announces. -/
def readFrame (ending : Ending) : Reader UInt8 PyErr (ℕ × Bytes) := fun data => do
  let (header, rest) ← readExactly ending 4 data
  let (ptype, plen) ← decodeHeader header
  let (payload, rest) ← if plen = 0 then pure ([], rest) else readExactly ending plen rest
  return ((ptype, payload), rest)

def readPacket (ending : Ending) : Reader UInt8 PyErr InboundPacket := fun data => do
  let ((ptype, payload), rest) ← readFrame ending data
  return (← decodePacket ptype payload, rest)

/-- The packet is encoded before anything is written; `drained` is how the drain ends. -/
def sendPacket (drained : Except PyErr Unit) (ptype : ℕ) (args : List OutArg) (written : Bytes) :
    Except PyErr Unit × Bytes :=
  match encodePacket ptype args with
  | .error e => (.error e, written)
  | .ok frame => (drained, written ++ frame)

/-! One frame -/

/-- A header announcing the payload, and the payload. -/
def frame (ptype : ℕ) (payload : Bytes) : Bytes :=
  bytesOfNat 2 ptype ++ bytesOfNat 2 payload.length ++ payload

theorem decodeHeader_frame {ptype plen : ℕ} (ht : ptype < 256 ^ 2) (hp : plen < 256 ^ 2) :
    decodeHeader (bytesOfNat 2 ptype ++ bytesOfNat 2 plen) = .ok (ptype, plen) := by
  unfold decodeHeader
  rw [unpack_bytesOfNat ht]
  have hplen : unpack 2 (bytesOfNat 2 plen) = .ok (plen, []) := by
    simpa using @unpack_bytesOfNat 2 plen hp []
  simp only [bind, Except.bind, hplen]
  rfl

theorem readExactly_append (ending : Ending) (b : Bytes) :
    Reads (readExactly ending b.length) b b := by
  intro rest
  unfold readExactly
  rw [if_pos (by rw [List.length_append]; omega), List.take_left, List.drop_left]

/-- A frame is read back, its type and its payload. -/
theorem readFrame_frame (ending : Ending) {ptype : ℕ} {payload : Bytes} (ht : ptype < 256 ^ 2)
    (hp : payload.length < 256 ^ 2) :
    Reads (readFrame ending) (frame ptype payload) (ptype, payload) := by
  intro rest
  have hheader := readExactly_append ending
    (bytesOfNat 2 ptype ++ bytesOfNat 2 payload.length) (payload ++ rest)
  rw [List.length_append, length_bytesOfNat, length_bytesOfNat] at hheader
  unfold readFrame frame
  rw [List.append_assoc, hheader]
  simp only [bind, Except.bind, decodeHeader_frame ht hp]
  by_cases hempty : payload.length = 0
  · have hnil : payload = [] := List.eq_nil_of_length_eq_zero hempty
    subst hnil
    rfl
  · rw [if_neg hempty, readExactly_append ending payload rest]
    rfl

end AoMarket.Connection
