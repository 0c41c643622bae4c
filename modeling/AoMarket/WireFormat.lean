import AoMarket.Connection

/-!
What goes over the wire comes back. A packet whose arguments keep the bounds of
its length fields is written as one frame, whose payload the schema's own rules
decode to the arguments; a packet that breaks a bound is not written at all. A
string has a length field of its own, so a payload can overflow the header while
each of its strings fits.
-/

namespace AoMarket.WireFormat

open Environment Packet Framing Connection

structure OutPacket where
  type : ℕ
  args : List OutArg

/-- The kind of argument a schema letter asks for. -/
def Suits : Code → OutArg → Prop
  | .int, .int _ => True
  | .str, .str _ => True
  | .str, .bytes _ => True
  | _, _ => False

namespace OutPacket

def WellTyped (p : OutPacket) : Prop :=
  ∃ schema, outSchemas.lookup p.type = some schema ∧ List.Forall₂ Suits schema p.args

end OutPacket

/-- The bounds of the fields an argument is written into. -/
def ArgFits : OutArg → Prop
  | .int n => 0 ≤ n ∧ n < 2 ^ 32
  | .str s => (utf8 s).length ≤ 65535
  | .bytes b => b.length ≤ 65535

def argSize : OutArg → ℕ
  | .int _ => 4
  | .str s => 2 + (utf8 s).length
  | .bytes b => 2 + b.length

def payloadSize (args : List OutArg) : ℕ := (args.map argSize).sum

def OutPacket.Fits (p : OutPacket) : Prop :=
  (∀ a ∈ p.args, ArgFits a) ∧ payloadSize p.args ≤ 65535

/-- What a reader of the payload gets for an argument: strings are their bytes. -/
def received : OutArg → InArg
  | .int n => .int n.toNat
  | .str s => .str (utf8 s)
  | .bytes b => .str b

/-- `decode_args` with the outbound schemas. -/
def decodeOut (ptype : ℕ) (data : Bytes) : Except PyErr (List InArg) := do
  decodeCodes (← schemaOf outSchemas ptype) data

/-! One argument -/

theorem pack_of_lt {width n : ℕ} (h : n < 256 ^ width) :
    pack width (n : ℤ) = .ok (bytesOfNat width n) := by
  have hn : (n : ℤ) < 256 ^ width := by exact_mod_cast h
  exact pack_eq_ok.mpr ⟨⟨Int.natCast_nonneg n, hn⟩, by rw [Int.toNat_natCast]⟩

theorem pack_of_ge {width n : ℕ} (h : ¬ n < 256 ^ width) : pack width (n : ℤ) = .error .struct := by
  have hn : ¬ (n : ℤ) < 256 ^ width := by exact_mod_cast h
  simp [pack, hn]

/-- A string is its length and its bytes, as the decoder wants them. -/
theorem reads_str {b : Bytes} (h : b.length < 256 ^ 2) :
    Reads (decodeArg .str) (bytesOfNat 2 b.length ++ b) (.str b) := by
  intro rest
  simp only [decodeArg, decodeStr, List.append_assoc, unpack_bytesOfNat h]
  simp [bind, Except.bind, pure, Except.pure]

/-- An argument within its bounds is written in `argSize` bytes and read back. -/
theorem encodeArg_fits {code : Code} {a : OutArg} (hsuits : Suits code a) (hfits : ArgFits a) :
    ∃ b, encodeArg code a = .ok b ∧ b.length = argSize a ∧
      Reads (decodeArg code) b (received a) := by
  match code, a, hsuits with
  | .int, .int n, _ =>
    obtain ⟨hlow, hhigh⟩ := hfits
    have hword : n.toNat < 256 ^ 4 := by omega
    refine ⟨bytesOfNat 4 n.toNat, pack_eq_ok.mpr ⟨⟨hlow, by omega⟩, rfl⟩, length_bytesOfNat _ _, ?_⟩
    intro rest
    simp only [decodeArg, unpack_bytesOfNat hword]
    rfl
  | .str, .str s, _ =>
    have hlen : (utf8 s).length < 256 ^ 2 := Nat.lt_of_le_of_lt hfits (by decide)
    refine ⟨bytesOfNat 2 (utf8 s).length ++ utf8 s, ?_, ?_, reads_str hlen⟩
    · simp only [encodeArg, pack_of_lt hlen]
      rfl
    · rw [List.length_append, length_bytesOfNat, argSize]
  | .str, .bytes b, _ =>
    have hlen : b.length < 256 ^ 2 := Nat.lt_of_le_of_lt hfits (by decide)
    refine ⟨bytesOfNat 2 b.length ++ b, ?_, ?_, reads_str hlen⟩
    · simp only [encodeArg, pack_of_lt hlen]
      rfl
    · rw [List.length_append, length_bytesOfNat, argSize]

/-- An argument out of bounds is a struct.error. -/
theorem encodeArg_unfit {code : Code} {a : OutArg} (hsuits : Suits code a) (hfits : ¬ ArgFits a) :
    encodeArg code a = .error .struct := by
  match code, a, hsuits with
  | .int, .int n, _ => exact if_neg hfits
  | .str, .str s, _ =>
    have hlen : ¬ (utf8 s).length < 256 ^ 2 := fun h => hfits (Nat.le_of_lt_succ h)
    simp only [encodeArg, pack_of_ge hlen]
    rfl
  | .str, .bytes b, _ =>
    have hlen : ¬ b.length < 256 ^ 2 := fun h => hfits (Nat.le_of_lt_succ h)
    simp only [encodeArg, pack_of_ge hlen]
    rfl

/-! The arguments of a packet -/

/-- The payload of arguments within their bounds has the sum of their sizes, and is read back. -/
theorem encodeCodes_fits {schema : List Code} {args : List OutArg}
    (hsuits : List.Forall₂ Suits schema args) (hfits : ∀ a ∈ args, ArgFits a) :
    ∃ b, encodeCodes schema args = .ok b ∧ b.length = payloadSize args ∧
      ∀ rest, decodeCodes schema (b ++ rest) = .ok (args.map received) := by
  induction hsuits with
  | nil => exact ⟨[], rfl, rfl, fun _ => rfl⟩
  | @cons code a schema args hhead _ ih =>
    obtain ⟨b, hb, hlen, hread⟩ := encodeArg_fits hhead (hfits a List.mem_cons_self)
    obtain ⟨bs, hbs, hlens, hreads⟩ := ih fun a' ha' => hfits a' (List.mem_cons_of_mem a ha')
    refine ⟨b ++ bs, ?_, ?_, fun rest => ?_⟩
    · simp [encodeCodes, hb, hbs, bind, Except.bind, pure, Except.pure]
    · simp only [payloadSize, List.length_append, List.map_cons, List.sum_cons, hlen] at hlens ⊢
      omega
    · rw [List.append_assoc]
      simp [decodeCodes, hread (bs ++ rest), hreads rest, bind, Except.bind, pure, Except.pure]

theorem encodeCodes_unfit {schema : List Code} {args : List OutArg}
    (hsuits : List.Forall₂ Suits schema args) (hfits : ¬ ∀ a ∈ args, ArgFits a) :
    ∃ e, encodeCodes schema args = .error e := by
  induction hsuits with
  | nil => simp at hfits
  | @cons code a schema args hhead _ ih =>
    by_cases ha : ArgFits a
    · obtain ⟨b, hb, _⟩ := encodeArg_fits hhead ha
      have hrest : ¬ ∀ a' ∈ args, ArgFits a' := fun h =>
        hfits (List.forall_mem_cons.mpr ⟨ha, h⟩)
      obtain ⟨e, he⟩ := ih hrest
      exact ⟨e, by simp [encodeCodes, hb, he, bind, Except.bind]⟩
    · exact ⟨.struct, by simp [encodeCodes, encodeArg_unfit hhead ha, bind, Except.bind]⟩

/-! One packet -/

theorem outSchemas_type {ptype : ℕ} {schema : List Code}
    (h : outSchemas.lookup ptype = some schema) : ptype < 256 ^ 2 := by
  have hall : ∀ entry ∈ outSchemas, entry.1 < 256 ^ 2 := by decide
  have hmem : (ptype, schema) ∈ outSchemas := by
    have hkey := List.lookup_eq_some_iff.mp h
    obtain ⟨l, r, heq, _⟩ := hkey
    rw [heq]
    simp
  exact hall _ hmem

theorem encodeHeader_ok {ptype plen : ℕ} (ht : ptype < 256 ^ 2) (hp : plen < 256 ^ 2) :
    encodeHeader ptype plen = .ok (bytesOfNat 2 ptype ++ bytesOfNat 2 plen) := by
  unfold encodeHeader
  rw [pack_of_lt ht, pack_of_lt hp]
  rfl

theorem encodeHeader_error {ptype plen : ℕ} (ht : ptype < 256 ^ 2) (hp : ¬ plen < 256 ^ 2) :
    encodeHeader ptype plen = .error .struct := by
  unfold encodeHeader
  rw [pack_of_lt ht, pack_of_ge hp]
  rfl

namespace OutPacket

/-- A packet that fits becomes one frame, whose payload decodes to what was sent. -/
theorem encode_fits {p : OutPacket} (htyped : p.WellTyped) (hfits : p.Fits) :
    ∃ payload, encodeArgs p.type p.args = .ok payload ∧
      encodePacket p.type p.args = .ok (frame p.type payload) ∧
      p.type < 256 ^ 2 ∧ payload.length < 256 ^ 2 ∧
      decodeOut p.type payload = .ok (p.args.map received) := by
  obtain ⟨schema, hschema, hsuits⟩ := htyped
  obtain ⟨payload, henc, hlen, hdec⟩ := encodeCodes_fits hsuits hfits.1
  have htype := outSchemas_type hschema
  have hsize : payload.length < 256 ^ 2 := by
    rw [hlen]
    exact Nat.lt_of_le_of_lt hfits.2 (by decide)
  have hargs : encodeArgs p.type p.args = .ok payload := by
    simp [encodeArgs, schemaOf, hschema, henc, bind, Except.bind]
  refine ⟨payload, hargs, ?_, htype, hsize, ?_⟩
  · unfold encodePacket frame
    rw [hargs, ok_bind, encodeHeader_ok htype hsize, ok_bind]
    rfl
  · have hfull := hdec []
    rw [List.append_nil] at hfull
    simp [decodeOut, schemaOf, hschema, hfull, bind, Except.bind]

/-- A packet that does not fit is not encoded: a field of it overflows, or its payload
the header. -/
theorem encode_unfit {p : OutPacket} (htyped : p.WellTyped) (hfits : ¬ p.Fits) :
    ∃ e, encodePacket p.type p.args = .error e := by
  obtain ⟨schema, hschema, hsuits⟩ := htyped
  by_cases hall : ∀ a ∈ p.args, ArgFits a
  · -- every argument is encoded, and the header cannot hold their length
    obtain ⟨payload, henc, hlen, _⟩ := encodeCodes_fits hsuits hall
    have hsize : ¬ payload.length < 256 ^ 2 := by
      intro hlt
      rw [hlen] at hlt
      exact hfits ⟨hall, Nat.le_of_lt_succ hlt⟩
    have hargs : encodeArgs p.type p.args = .ok payload := by
      simp [encodeArgs, schemaOf, hschema, henc, bind, Except.bind]
    refine ⟨.struct, ?_⟩
    unfold encodePacket
    rw [hargs, ok_bind, encodeHeader_error (outSchemas_type hschema) hsize, error_bind]
  · obtain ⟨e, he⟩ := encodeCodes_unfit hsuits hall
    exact ⟨e, by simp [encodePacket, encodeArgs, schemaOf, hschema, he, bind, Except.bind]⟩

end OutPacket

/-- What a peer that reads one frame for every packet may find. -/
def Arrives (p : OutPacket) (r : ℕ × Bytes) : Prop :=
  r.1 = p.type ∧ encodeArgs p.type p.args = .ok r.2 ∧
    decodeOut r.1 r.2 = .ok (p.args.map received)

/-- Packets that keep the bounds, encoded and joined, are read as they were sent. -/
theorem frames_read_back {packets : List OutPacket}
    (h : ∀ p ∈ packets, p.WellTyped ∧ p.Fits) (ending : Ending) :
    ∃ frames read, (packets.mapM fun p => encodePacket p.type p.args) = .ok frames ∧
      List.Forall₂ (Reads (readFrame ending)) frames read ∧ List.Forall₂ Arrives packets read := by
  induction packets with
  | nil => exact ⟨[], [], rfl, List.Forall₂.nil, List.Forall₂.nil⟩
  | cons p rest ih =>
    obtain ⟨htyped, hfits⟩ := h p List.mem_cons_self
    obtain ⟨payload, hargs, henc, ht, hp, hdec⟩ := OutPacket.encode_fits htyped hfits
    obtain ⟨frames, read, hframes, hreads, harrive⟩ :=
      ih fun q hq => h q (List.mem_cons_of_mem p hq)
    refine ⟨frame p.type payload :: frames, (p.type, payload) :: read, ?_, ?_, ?_⟩
    · simp only [List.mapM_cons, henc, hframes, bind, Except.bind]
      rfl
    · exact List.Forall₂.cons (readFrame_frame ending ht hp) hreads
    · exact List.Forall₂.cons ⟨rfl, hargs, hdec⟩ harrive

/-- Packets that fit arrive as they were sent, in order and with nothing left over; one that
does not fit raises before a byte of it is written. -/
theorem outbound_round_trip (packets : List OutPacket) (h : ∀ p ∈ packets, p.WellTyped)
    (ending : Ending) :
    ((∀ p ∈ packets, p.Fits) →
      ∃ frames read, (packets.mapM fun p => encodePacket p.type p.args) = .ok frames ∧
        readMany (readFrame ending) packets.length frames.flatten = .ok (read, []) ∧
        List.Forall₂ Arrives packets read) ∧
    ∀ p ∈ packets, ¬ p.Fits →
      (∃ e, encodePacket p.type p.args = .error e) ∧
        ∀ drained written, ∃ e, sendPacket drained p.type p.args written = (.error e, written) := by
  constructor
  · intro hfits
    obtain ⟨frames, read, hframes, hreads, harrive⟩ :=
      frames_read_back (fun p hp => ⟨h p hp, hfits p hp⟩) ending
    have hall := readMany_flatten hreads []
    rw [List.append_nil, ← harrive.length_eq] at hall
    exact ⟨frames, read, hframes, hall, harrive⟩
  · intro p hp hfits
    obtain ⟨e, he⟩ := OutPacket.encode_unfit (h p hp) hfits
    refine ⟨⟨e, he⟩, fun drained written => ⟨e, ?_⟩⟩
    simp only [sendPacket, he]

/-- The keepalive and a tell. -/
def keepaliveAndTell : List OutPacket :=
  [⟨ping, [.str "aomarket-bot"]⟩, ⟨msgPrivate, [.int 7, .str "ok", .bytes [0]]⟩]

theorem keepalive_and_tell_arrive :
    ∃ frames read, (keepaliveAndTell.mapM fun p => encodePacket p.type p.args) = .ok frames ∧
      readMany (readFrame .eof) 2 frames.flatten = .ok (read, []) ∧
      List.Forall₂ Arrives keepaliveAndTell read := by
  refine (outbound_round_trip keepaliveAndTell ?_ .eof).1 ?_
  · intro p hp
    rcases List.mem_pair.mp hp with rfl | rfl
    · exact ⟨[.str], rfl, by simp [Suits]⟩
    · exact ⟨[.int, .str, .str], rfl, by simp [Suits]⟩
  · intro p hp
    rcases List.mem_pair.mp hp with rfl | rfl
    · exact ⟨by simp only [List.mem_singleton, forall_eq, ArgFits]; decide, by decide⟩
    · refine ⟨?_, by decide⟩
      simp only [List.mem_cons, List.not_mem_nil, or_false, forall_eq_or_imp, forall_eq, ArgFits]
      decide

end AoMarket.WireFormat
