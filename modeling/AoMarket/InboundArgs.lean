import AoMarket.Framing
import AoMarket.Packet

/-!
decode_args against the canonical encoding of what it returns. Whatever a schema's
arguments are encoded to is decoded to them, whatever follows. The other way
round, the decoder also accepts a payload that ends inside its last string: the
slice is shorter than the length field says. `span` is the offset the decoder
ends at, which then lies past the end of the payload.
-/

namespace AoMarket.InboundArgs

open Environment Packet Framing

/-! Encodings -/

def encodeStr (b : Bytes) : Bytes := bytesOfNat 2 b.length ++ b

def encodeIn : InArg → Bytes
  | .int n => bytesOfNat 4 n
  | .str b => encodeStr b
  | .ints ns => bytesOfNat 2 ns.length ++ ns.flatMap (bytesOfNat 4)
  | .strs bs => bytesOfNat 2 bs.length ++ bs.flatMap encodeStr

/-- An argument of the kind the schema letter asks for, within the bounds of its fields. -/
def Matches : Code → InArg → Prop
  | .int, .int n => n < 2 ^ 32
  | .str, .str b => b.length ≤ 65535
  | .ints, .ints ns => ns.length ≤ 65535 ∧ ∀ n ∈ ns, n < 2 ^ 32
  | .strs, .strs bs => bs.length ≤ 65535 ∧ ∀ b ∈ bs, b.length ≤ 65535
  | _, _ => False

theorem decodeInts_eq (count : ℕ) : decodeInts count = readMany (unpack 4) count := by
  induction count with
  | zero => rfl
  | succ count ih =>
    funext data
    simp only [decodeInts, readMany, ih]

theorem decodeStrs_eq (count : ℕ) : decodeStrs count = readMany decodeStr count := by
  induction count with
  | zero => rfl
  | succ count ih =>
    funext data
    simp only [decodeStrs, readMany, ih]

/-! What was encoded is decoded -/

section Complete

theorem reads_unpack {width n : ℕ} (h : n < 256 ^ width) :
    Reads (unpack width) (bytesOfNat width n) n := fun rest => unpack_bytesOfNat h rest

theorem reads_decodeStr {b : Bytes} (h : b.length ≤ 65535) : Reads decodeStr (encodeStr b) b := by
  intro rest
  have hlen : b.length < 256 ^ 2 := Nat.lt_of_le_of_lt h (by decide)
  simp [decodeStr, encodeStr, unpack_bytesOfNat hlen, bind, Except.bind, pure, Except.pure]

/-- A counted array of elements that are read one by one. -/
theorem reads_counted {α : Type} {read : Reader UInt8 PyErr α} {enc : α → Bytes} {as : List α}
    (h : ∀ a ∈ as, Reads read (enc a) a) :
    Reads (readMany read as.length) (as.flatMap enc) as := by
  rw [List.flatMap_def]
  apply readMany_flatten
  induction as with
  | nil => exact List.Forall₂.nil
  | cons a rest ih =>
    refine List.Forall₂.cons (h a List.mem_cons_self) (ih fun x hx => ?_)
    exact h x (List.mem_cons_of_mem a hx)

/-- An argument within its bounds is read back from its encoding. -/
theorem reads_decodeArg {code : Code} {a : InArg} (h : Matches code a) :
    Reads (decodeArg code) (encodeIn a) a := by
  intro rest
  match code, a, h with
  | .int, .int n, h =>
    have hn : n < 256 ^ 4 := h
    simp [decodeArg, encodeIn, unpack_bytesOfNat hn, bind, Except.bind, pure, Except.pure]
  | .str, .str b, h =>
    simp [decodeArg, encodeIn, reads_decodeStr h rest, bind, Except.bind, pure, Except.pure]
  | .ints, .ints ns, h =>
    have hlen : ns.length < 256 ^ 2 := Nat.lt_of_le_of_lt h.1 (by decide)
    have hmany : Reads (readMany (unpack 4) ns.length) (ns.flatMap (bytesOfNat 4)) ns :=
      reads_counted fun n hn => reads_unpack (h.2 n hn)
    simp [decodeArg, encodeIn, decodeInts_eq, unpack_bytesOfNat hlen, hmany rest, bind,
      Except.bind, pure, Except.pure]
  | .strs, .strs bs, h =>
    have hlen : bs.length < 256 ^ 2 := Nat.lt_of_le_of_lt h.1 (by decide)
    have hmany : Reads (readMany decodeStr bs.length) (bs.flatMap encodeStr) bs :=
      reads_counted fun b hb => reads_decodeStr (h.2 b hb)
    simp [decodeArg, encodeIn, decodeStrs_eq, unpack_bytesOfNat hlen, hmany rest, bind,
      Except.bind, pure, Except.pure]

/-- Arguments within their bounds are read back from the payload, whatever follows it. -/
theorem decodeCodes_encodeIn {schema : List Code} {args : List InArg}
    (h : List.Forall₂ Matches schema args) (t : Bytes) :
    decodeCodes schema (args.flatMap encodeIn ++ t) = .ok args := by
  induction h with
  | nil => rfl
  | @cons code a schema args hhead _ ih =>
    rw [List.flatMap_cons, List.append_assoc]
    simp [decodeCodes, reads_decodeArg hhead _, ih, bind, Except.bind, pure, Except.pure]

/-- Arguments that match a type's schema are decoded from their encoding, whatever follows. -/
theorem inbound_complete {ptype : ℕ} {schema : List Code} {args : List InArg}
    (hschema : inSchemas.lookup ptype = some schema) (h : List.Forall₂ Matches schema args)
    (t : Bytes) : decodeArgs ptype (args.flatMap encodeIn ++ t) = .ok args := by
  simp [decodeArgs, schemaOf, hschema, decodeCodes_encodeIn h t, bind, Except.bind]

/-- A character list with two names, one of them empty. -/
theorem charlist_complete :
    decodeArgs loginCharlist (([.ints [7, 8], .strs [[84, 97], []], .ints [], .ints [1]] :
      List InArg).flatMap encodeIn ++ [1]) =
        .ok [.ints [7, 8], .strs [[84, 97], []], .ints [], .ints [1]] := by
  have hschema : inSchemas.lookup loginCharlist = some [.ints, .strs, .ints, .ints] := rfl
  exact inbound_complete hschema (by simp [Matches]) [1]

end Complete

/-! Where the decoder ends -/

/-- The length in the field at the head of what is left. -/
def lengthField (data : Bytes) : Option ℕ :=
  if 2 ≤ data.length then some (natOfBytes (data.take 2)) else none

def strSpan (data : Bytes) : Option ℕ := (lengthField data).map (2 + ·)

def strsSpan : ℕ → Bytes → Option ℕ
  | 0, _ => some 0
  | count + 1, data => (strSpan data).bind fun n => (strsSpan count (data.drop n)).map (n + ·)

def intsSpan (count : ℕ) (data : Bytes) : Option ℕ :=
  if 4 * count ≤ data.length then some (4 * count) else none

/-- The bytes an argument takes by its own length fields; `none` where one of them or a
number is cut off. -/
def argSpan : Code → Bytes → Option ℕ
  | .int, data => if 4 ≤ data.length then some 4 else none
  | .str, data => strSpan data
  | .ints, data => (lengthField data).bind fun count =>
    (intsSpan count (data.drop 2)).map (2 + ·)
  | .strs, data => (lengthField data).bind fun count =>
    (strsSpan count (data.drop 2)).map (2 + ·)

def span : List Code → Bytes → Option ℕ
  | [], _ => some 0
  | code :: codes, data =>
    (argSpan code data).bind fun n => (span codes (data.drop n)).map (n + ·)

section Spans
variable {α : Type}

/-- What a reader returns on data is encoded in the bytes it spans, if these are all there;
otherwise the data does not begin with the encoding. -/
inductive Spans (enc : α → Bytes) (data : Bytes) : Option ℕ → Except PyErr (α × Bytes) → Prop
  | cut (e : PyErr) : Spans enc data none (.error e)
  | whole (n : ℕ) (a : α) (hn : n ≤ data.length) (h : enc a ++ data.drop n = data) :
      Spans enc data (some n) (.ok (a, data.drop n))
  | short (n : ℕ) (a : α) (hn : data.length < n) (h : ¬ enc a <+: data) :
      Spans enc data (some n) (.ok (a, []))

theorem Spans.returns {enc : α → Bytes} {data : Bytes} {n : ℕ} {r : Except PyErr (α × Bytes)}
    (h : Spans enc data (some n) r) : ∃ a, r = .ok a := by
  cases h with
  | whole n a hn h => exact ⟨_, rfl⟩
  | short n a hn h => exact ⟨_, rfl⟩

theorem Spans.prefix_iff {enc : α → Bytes} {data rest : Bytes} {n : Option ℕ} {a : α}
    (h : Spans enc data n (.ok (a, rest))) :
    enc a <+: data ↔ ∀ m, n = some m → m ≤ data.length := by
  cases h with
  | whole n a hn h => exact ⟨fun _ m hm => Option.some.inj hm ▸ hn, fun _ => ⟨_, h⟩⟩
  | short n a hn h =>
    refine ⟨fun hprefix => absurd hprefix h, fun hall => ?_⟩
    have hle := hall n rfl
    omega

theorem lengthField_none {data : Bytes} (h : lengthField data = none) :
    unpack 2 data = .error .struct := by
  unfold lengthField at h
  split at h
  · cases h
  · next hlen => exact if_neg hlen

theorem lengthField_some {data : Bytes} {count : ℕ} (h : lengthField data = some count) :
    unpack 2 data = .ok (count, data.drop 2) ∧ bytesOfNat 2 count ++ data.drop 2 = data ∧
      count < 256 ^ 2 := by
  unfold lengthField at h
  split at h
  · next hlen =>
    cases h
    have htake : (data.take 2).length = 2 := by simpa using hlen
    have hbytes := bytesOfNat_natOfBytes (data.take 2)
    have hlt := natOfBytes_lt (data.take 2)
    rw [htake] at hbytes hlt
    refine ⟨if_pos hlen, ?_, hlt⟩
    rw [hbytes, List.take_append_drop]
  · cases h

theorem spans_decodeStr (data : Bytes) : Spans encodeStr data (strSpan data) (decodeStr data) := by
  unfold strSpan
  cases hfield : lengthField data with
  | none =>
    rw [decodeStr, lengthField_none hfield]
    exact .cut _
  | some count =>
    obtain ⟨hunpack, hdata, hcount⟩ := lengthField_some hfield
    have hdecode : decodeStr data =
        .ok ((data.drop 2).take count, (data.drop 2).drop count) := by
      rw [decodeStr, hunpack]
      rfl
    rw [hdecode, Option.map_some]
    show Spans encodeStr data (some (2 + count)) _
    generalize hrest : data.drop 2 = rest at *
    have hlen : data.length = 2 + rest.length := by
      rw [← hdata, List.length_append, length_bytesOfNat]
    have hdrop : data.drop (2 + count) = rest.drop count := by rw [← hrest, List.drop_drop]
    by_cases hall : count ≤ rest.length
    · rw [← hdrop]
      refine .whole _ _ (by omega) ?_
      rw [encodeStr, List.length_take, Nat.min_eq_left hall, hdrop, List.append_assoc,
        List.take_append_drop, hdata]
    · have hshort : rest.drop count = [] := List.drop_eq_nil_of_le (by omega)
      rw [hshort]
      refine .short _ _ (by omega) fun hprefix => ?_
      -- The encoding begins with the length there is, the data with the one it declares.
      obtain ⟨t, ht⟩ := hprefix
      rw [encodeStr, List.take_of_length_le (by omega), ← hdata, List.append_assoc] at ht
      have hfields := (List.append_inj ht (by simp)).1
      have hsame := congrArg natOfBytes hfields
      rw [natOfBytes_bytesOfNat (by omega), natOfBytes_bytesOfNat hcount] at hsame
      omega

theorem spans_unpack (data : Bytes) :
    Spans (fun n => bytesOfNat 4 n) data (if 4 ≤ data.length then some 4 else none)
      (unpack 4 data) := by
  unfold unpack
  split
  · next h =>
    refine .whole 4 _ h ?_
    have htake : (data.take 4).length = 4 := by simpa using h
    have hbytes := bytesOfNat_natOfBytes (data.take 4)
    rw [htake] at hbytes
    rw [hbytes, List.take_append_drop]
  · exact .cut _

/-- What follows a part that is all there. -/
theorem Spans.after {β : Type} {enc : α → Bytes} {enc' : β → Bytes} {f : α → β}
    {head rest data : Bytes} {m : Option ℕ} {r : Except PyErr (α × Bytes)}
    (h : Spans enc rest m r) (hdata : head ++ rest = data)
    (henc : ∀ a t, r = .ok (a, t) → enc' (f a) = head ++ enc a) :
    Spans enc' data (m.map (head.length + ·)) (r >>= fun r => .ok (f r.1, r.2)) := by
  subst hdata
  cases h with
  | cut e => exact .cut e
  | whole m a hm hb =>
    have hdrop : rest.drop m = (head ++ rest).drop (head.length + m) := by simp
    rw [ok_bind, hdrop]
    refine .whole (head.length + m) _ (by simpa using hm) ?_
    rw [henc a _ rfl, ← hdrop, List.append_assoc, hb]
  | short m a hm hb =>
    refine .short (head.length + m) _ (by simpa using hm) fun hprefix => hb ?_
    rw [henc a _ rfl] at hprefix
    exact (List.prefix_append_right_inj head).mp hprefix

/-- Two readers one after the other. -/
theorem Spans.andThen {β γ : Type} {enc : α → Bytes} {enc' : β → Bytes} {encBoth : γ → Bytes}
    {data : Bytes} {n : Option ℕ} {read : Except PyErr (α × Bytes)} {span' : Bytes → Option ℕ}
    {read' : Reader UInt8 PyErr β} {both : α → β → γ} (h : Spans enc data n read)
    (h' : ∀ rest, Spans enc' rest (span' rest) (read' rest))
    (hboth : ∀ a b, encBoth (both a b) = enc a ++ enc' b) :
    Spans encBoth data (n.bind fun n => (span' (data.drop n)).map (n + ·))
      (read >>= fun r => read' r.2 >>= fun r' => .ok (both r.1 r'.1, r'.2)) := by
  cases h with
  | cut e => exact .cut e
  | whole n a hn hdata =>
    have hlen : (enc a).length = n := by
      have hsum := congrArg List.length hdata
      rw [List.length_append, List.length_drop] at hsum
      omega
    have hafter := (h' (data.drop n)).after hdata fun b _ _ => hboth a b
    rwa [hlen] at hafter
  | short n a hn hnot =>
    -- The rest of the payload is empty, and the encoding already goes wrong before it.
    have hnone : data.drop n = [] := List.drop_eq_nil_of_le (by omega)
    have hrest := h' []
    rw [ok_bind, Option.bind_some, hnone]
    have hboth' : ∀ b, ¬ encBoth (both a b) <+: data := by
      intro b hprefix
      rw [hboth] at hprefix
      exact hnot ((List.prefix_append _ _).trans hprefix)
    dsimp only
    generalize span' [] = m, read' [] = r at hrest
    cases hrest with
    | cut e => exact .cut e
    | whole m b hm hb =>
      rw [ok_bind, List.drop_nil]
      exact .short (n + m) _ (by omega) (hboth' b)
    | short m b hm hb => exact .short (n + m) _ (by omega) (hboth' b)

/-! Arguments -/

theorem spans_decodeStrs (count : ℕ) (data : Bytes) :
    Spans (fun bs => bs.flatMap encodeStr) data (strsSpan count data) (decodeStrs count data) := by
  induction count generalizing data with
  | zero => exact .whole 0 [] (Nat.zero_le _) rfl
  | succ count ih => exact (spans_decodeStr data).andThen ih fun b bs => rfl

theorem spans_decodeInts (count : ℕ) (data : Bytes) :
    Spans (fun ns => ns.flatMap (bytesOfNat 4)) data (intsSpan count data)
      (decodeInts count data) := by
  induction count generalizing data with
  | zero => exact .whole 0 [] (Nat.zero_le _) rfl
  | succ count ih =>
    have hboth : Spans (fun ns => ns.flatMap (bytesOfNat 4)) data _ (decodeInts (count + 1) data) :=
      (spans_unpack data).andThen ih fun n ns => rfl
    convert hboth using 1
    unfold intsSpan
    by_cases hfirst : 4 ≤ data.length
    · rw [if_pos hfirst, Option.bind_some, List.length_drop]
      by_cases hall : 4 * (count + 1) ≤ data.length
      · rw [if_pos hall, if_pos (by omega), Option.map_some]
        congr 1
        omega
      · rw [if_neg hall, if_neg (by omega)]
        rfl
    · rw [if_neg hfirst, if_neg (by omega)]
      rfl

theorem readMany_length {β ε : Type} {read : Reader β ε α} {count : ℕ} {data rest : List β}
    {as : List α} (h : readMany read count data = .ok (as, rest)) : as.length = count := by
  induction count generalizing data as rest with
  | zero =>
    cases h
    rfl
  | succ count ih =>
    cases hread : read data with
    | error e => simp [readMany, hread, bind, Except.bind] at h
    | ok r =>
      rw [readMany_cons hread] at h
      cases hmany : readMany read count r.2 with
      | error e =>
        rw [hmany] at h
        cases h
      | ok s =>
        rw [hmany] at h
        cases h
        rw [List.length_cons, ih hmany]

/-- An array with its count. -/
theorem spans_counted {read : ℕ → Reader UInt8 PyErr (List α)} {spanOf : ℕ → Bytes → Option ℕ}
    {enc : α → Bytes} {f : List α → InArg}
    (h : ∀ count rest, Spans (fun as => as.flatMap enc) rest (spanOf count rest) (read count rest))
    (hlength : ∀ count rest as t, read count rest = .ok (as, t) → as.length = count)
    (henc : ∀ as, encodeIn (f as) = bytesOfNat 2 as.length ++ as.flatMap enc) (data : Bytes) :
    Spans encodeIn data
      ((lengthField data).bind fun count => (spanOf count (data.drop 2)).map (2 + ·))
      (unpack 2 data >>= fun r => read r.1 r.2 >>= fun r' => .ok (f r'.1, r'.2)) := by
  cases hfield : lengthField data with
  | none =>
    rw [lengthField_none hfield]
    exact .cut _
  | some count =>
    obtain ⟨hunpack, hdata, _⟩ := lengthField_some hfield
    have hafter : Spans encodeIn data _ _ := (h count (data.drop 2)).after hdata fun as t has => by
      rw [henc, hlength count _ as t has]
    rw [hunpack]
    rwa [length_bytesOfNat] at hafter

/-- Whatever the decoder returns, the bytes it has taken encode it. -/
theorem spans_decodeArg (code : Code) (data : Bytes) :
    Spans encodeIn data (argSpan code data) (decodeArg code data) := by
  cases code with
  | int =>
    have hspans : Spans encodeIn data _ (decodeArg .int data) :=
      (spans_unpack data).after (List.nil_append data) fun _ _ _ => rfl
    simpa [argSpan] using hspans
  | str =>
    have hspans : Spans encodeIn data _ (decodeArg .str data) :=
      (spans_decodeStr data).after (List.nil_append data) fun _ _ _ => rfl
    simpa [argSpan] using hspans
  | ints =>
    refine spans_counted spans_decodeInts (fun count rest as t has => ?_) (fun _ => rfl) data
    rw [decodeInts_eq] at has
    exact readMany_length has
  | strs =>
    refine spans_counted spans_decodeStrs (fun count rest as t has => ?_) (fun _ => rfl) data
    rw [decodeStrs_eq] at has
    exact readMany_length has

def readCodes : List Code → Reader UInt8 PyErr (List InArg)
  | [], data => .ok ([], data)
  | code :: codes, data =>
    decodeArg code data >>= fun r => readCodes codes r.2 >>= fun r' => .ok (r.1 :: r'.1, r'.2)

/-- Decoding with and without the rest of the payload agree. -/
theorem decodeCodes_eq (codes : List Code) (data : Bytes) :
    decodeCodes codes data = (readCodes codes data).map Prod.fst := by
  induction codes generalizing data with
  | nil => rfl
  | cons code codes ih =>
    rw [decodeCodes, readCodes]
    cases decodeArg code data with
    | error e => rfl
    | ok r =>
      simp only [ok_bind, ih]
      cases readCodes codes r.2 <;> rfl

theorem spans_readCodes (codes : List Code) (data : Bytes) :
    Spans (fun args => args.flatMap encodeIn) data (span codes data) (readCodes codes data) := by
  induction codes generalizing data with
  | nil => exact .whole 0 [] (Nat.zero_le _) rfl
  | cons code codes ih => exact (spans_decodeArg code data).andThen ih fun a args => rfl

end Spans

/-- The arguments returned are encoded at the head of the payload exactly when the lengths
it declares do not run past its end. -/
theorem accepted_whole_iff (ptype : ℕ) (payload : Bytes) :
    (∀ args, decodeArgs ptype payload = .ok args → args.flatMap encodeIn <+: payload) ↔
      ∀ schema n, inSchemas.lookup ptype = some schema → span schema payload = some n →
        n ≤ payload.length := by
  unfold decodeArgs schemaOf
  cases hschema : inSchemas.lookup ptype with
  | none => simp [bind, Except.bind]
  | some schema =>
    simp only [ok_bind, Option.some.injEq]
    rw [decodeCodes_eq]
    have hspans := spans_readCodes schema payload
    constructor
    · rintro h _ n rfl hspan
      rw [hspan] at hspans
      obtain ⟨r, hr⟩ := hspans.returns
      rw [hr] at hspans h
      exact hspans.prefix_iff.mp (h r.1 rfl) n rfl
    · intro h args hargs
      cases hr : readCodes schema payload with
      | error e =>
        rw [hr] at hargs
        cases hargs
      | ok r =>
        rw [hr] at hspans hargs
        cases hargs
        exact hspans.prefix_iff.mpr fun n hn => h schema n rfl hn

/-- The server's seed is declared five bytes long and two are there. -/
theorem truncated_seed_accepted :
    ¬ ∀ args, decodeArgs loginSeed [0, 5, 104, 105] = .ok args →
      args.flatMap encodeIn <+: [0, 5, 104, 105] := by
  intro h
  have hprefix := h [.str [104, 105]] rfl
  revert hprefix
  decide

end AoMarket.InboundArgs
