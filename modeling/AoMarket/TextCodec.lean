import AoMarket.ChatClient
import Mathlib.Data.List.Forall2

/-!
The two text codecs of the client. Inbound bytes become text as latin-1, and text
becomes outbound bytes as UTF-8. The two agree on ASCII, and on nothing else: a
byte from 128 on is one character coming in and two bytes going out, so a name
with such a character is looked up under one key and answered under another.
-/

namespace AoMarket.TextCodec

open Environment PyText Packet ChatClient

def AsciiBytes (b : Bytes) : Prop := ∀ x ∈ b, x.toNat < 128

def AsciiText (s : String) : Prop := ∀ c ∈ s.toList, c.toNat < 128

instance (b : Bytes) : Decidable (AsciiBytes b) := inferInstanceAs (Decidable (∀ x ∈ b, _))

instance (s : String) : Decidable (AsciiText s) := inferInstanceAs (Decidable (∀ c ∈ s.toList, _))

/-! UTF-8 of single characters -/

theorem utf8Size_ascii {c : Char} (h : c.toNat < 128) : c.utf8Size = 1 := by
  rw [Char.utf8Size_eq_one_iff, UInt32.le_iff_toNat_le]
  have hval : c.toNat = c.val.toNat := rfl
  have hlimit : (127 : UInt32).toNat = 127 := rfl
  omega

theorem two_le_utf8Size {c : Char} (h : ¬ c.toNat < 128) : 2 ≤ c.utf8Size := by
  have hpos := Char.utf8Size_pos c
  have hne : c.utf8Size ≠ 1 := by
    intro hone
    rw [Char.utf8Size_eq_one_iff, UInt32.le_iff_toNat_le] at hone
    have hval : c.toNat = c.val.toNat := rfl
    have hlimit : (127 : UInt32).toNat = 127 := rfl
    omega
  omega

theorem utf8EncodeChar_ascii {c : Char} (h : c.toNat < 128) :
    String.utf8EncodeChar c = [UInt8.ofNat c.toNat] :=
  String.utf8EncodeChar_eq_singleton (utf8Size_ascii h)

theorem toNat_latin1 (x : UInt8) : (Char.ofNat x.toNat).toNat = x.toNat := by
  have hx : x.toNat < 256 := x.toNat_lt
  have hvalid : x.toNat.isValidChar := Or.inl (by omega)
  unfold Char.ofNat
  rw [dif_pos hvalid]
  rfl

@[simp] theorem toList_latin1 (b : Bytes) :
    (latin1 b).toList = b.map fun x => Char.ofNat x.toNat := by
  simp [latin1]

/-! From bytes to text and back -/

theorem utf8_latin1 (b : Bytes) :
    utf8 (latin1 b) = b.flatMap fun x => String.utf8EncodeChar (Char.ofNat x.toNat) := by
  simp [utf8, List.flatMap_map]

theorem utf8_latin1_ascii {b : Bytes} (h : AsciiBytes b) : utf8 (latin1 b) = b := by
  rw [utf8_latin1]
  induction b with
  | nil => rfl
  | cons x b ih =>
    have hx : (Char.ofNat x.toNat).toNat < 128 := by
      rw [toNat_latin1]
      exact h x List.mem_cons_self
    rw [List.flatMap_cons, utf8EncodeChar_ascii hx, ih fun y hy => h y (List.mem_cons_of_mem x hy),
      toNat_latin1, UInt8.ofNat_toNat]
    rfl

theorem length_le_utf8_latin1 (b : Bytes) : b.length ≤ (utf8 (latin1 b)).length := by
  rw [utf8_latin1]
  induction b with
  | nil => simp
  | cons x b ih =>
    have hpos := Char.utf8Size_pos (Char.ofNat x.toNat)
    rw [List.flatMap_cons, List.length_append, String.length_utf8EncodeChar, List.length_cons]
    omega

/-- One byte from 128 on makes the text longer than the bytes it came from. -/
theorem ascii_of_utf8_latin1_length {b : Bytes} (h : (utf8 (latin1 b)).length = b.length) :
    AsciiBytes b := by
  induction b with
  | nil => simp [AsciiBytes]
  | cons x b ih =>
    have hsplit : (utf8 (latin1 (x :: b))).length =
        (Char.ofNat x.toNat).utf8Size + (utf8 (latin1 b)).length := by
      rw [utf8_latin1, utf8_latin1, List.flatMap_cons, List.length_append,
        String.length_utf8EncodeChar]
    have hrest := length_le_utf8_latin1 b
    have hpos := Char.utf8Size_pos (Char.ofNat x.toNat)
    rw [hsplit, List.length_cons] at h
    have hx : x.toNat < 128 := by
      by_contra hge
      have htwo := two_le_utf8Size (c := Char.ofNat x.toNat) (by rwa [toNat_latin1])
      omega
    intro y hy
    rcases List.mem_cons.mp hy with rfl | hy
    · exact hx
    · exact ih (by omega) y hy

/-- The text made of the bytes goes out as those bytes, with their length. -/
def Returns (b : Bytes) : Prop :=
  encodeArg .str (.str (latin1 b)) = .ok (bytesOfNat 2 b.length ++ b)

/-- Bytes come back through the two codecs exactly when all of them are ASCII. -/
theorem returns_iff {b : Bytes} (hlen : b.length < 65536) : Returns b ↔ AsciiBytes b := by
  unfold Returns
  simp only [encodeArg]
  constructor
  · intro h
    obtain ⟨head, hhead, htail⟩ := except_bind_eq_ok.mp h
    have hsplit : head ++ utf8 (latin1 b) = bytesOfNat 2 b.length ++ b := Except.ok.inj htail
    have hwidth : head.length = (bytesOfNat 2 b.length).length := by
      rw [(pack_eq_ok.mp hhead).2, length_bytesOfNat, length_bytesOfNat]
    exact ascii_of_utf8_latin1_length (congrArg List.length (List.append_inj_right hsplit hwidth))
  · intro hascii
    have hpack : pack 2 (b.length : ℤ) = .ok (bytesOfNat 2 b.length) :=
      pack_eq_ok.mpr ⟨⟨by omega, by norm_num; omega⟩, by rw [Int.toNat_natCast]⟩
    rw [utf8_latin1_ascii hascii, hpack]
    rfl

/-! From a name to the bytes of its request and back to a key -/

/-- What `str.lower` makes of one character. U+0130 is the only one it makes two of. -/
def LowerPiece (c : Char) (piece : List Char) : Prop :=
  if c.toNat = 0x130 then piece = ['i', Char.ofNat 0x307]
  else piece.length = 1 ∧ (c.toNat < 256 → piece = [lowerChar c])

/-- `lower` works character by character, as `str.lower` does. -/
def LowersPiecewise (lower : String → String) : Prop :=
  ∀ s : String, ∃ pieces : List (List Char),
    List.Forall₂ LowerPiece s.toList pieces ∧ (lower s).toList = pieces.flatten

theorem lowerPiece_latin {c : Char} {piece : List Char} (h : LowerPiece c piece)
    (hc : c.toNat < 256) : piece = [lowerChar c] := by
  unfold LowerPiece at h
  rw [if_neg (by omega)] at h
  exact h.2 hc

theorem lowerPiece_length {c : Char} {piece : List Char} (h : LowerPiece c piece) :
    piece.length ≤ c.utf8Size := by
  have hpos := Char.utf8Size_pos c
  unfold LowerPiece at h
  split at h
  · next hc =>
    have htwo : 2 ≤ c.utf8Size := two_le_utf8Size (by omega)
    rw [h]
    exact htwo
  · omega

theorem pieces_latin {cs : List Char} {pieces : List (List Char)}
    (h : List.Forall₂ LowerPiece cs pieces) (hcs : ∀ c ∈ cs, c.toNat < 256) :
    pieces.flatten = cs.map lowerChar := by
  induction h with
  | nil => rfl
  | @cons c piece cs pieces hhead _ ih =>
    rw [List.flatten_cons, lowerPiece_latin hhead (hcs c List.mem_cons_self),
      ih fun d hd => hcs d (List.mem_cons_of_mem c hd)]
    rfl

/-- The key of a text made of bytes. -/
theorem lower_latin1 {lower : String → String} (hlower : LowersPiecewise lower) (b : Bytes) :
    (lower (latin1 b)).toList = b.map fun x => lowerChar (Char.ofNat x.toNat) := by
  obtain ⟨pieces, hpieces, hflat⟩ := hlower (latin1 b)
  rw [hflat, pieces_latin hpieces, toList_latin1, List.map_map]
  · rfl
  · intro c hc
    rw [toList_latin1] at hc
    obtain ⟨x, _, rfl⟩ := List.mem_map.mp hc
    rw [toNat_latin1]
    exact x.toNat_lt

/-- The characters of the key under which the echo of a name is filed. -/
def echoChars (cs : List Char) : List Char :=
  (cs.flatMap String.utf8EncodeChar).map fun x => lowerChar (Char.ofNat x.toNat)

theorem echoChars_cons (c : Char) (cs : List Char) :
    echoChars (c :: cs) = ((String.utf8EncodeChar c).map fun x => lowerChar (Char.ofNat x.toNat)) ++
      echoChars cs := by
  simp [echoChars]

theorem echoChars_ascii_cons {c : Char} (hc : c.toNat < 128) (cs : List Char) :
    echoChars (c :: cs) = lowerChar c :: echoChars cs := by
  have hval : (UInt8.ofNat c.toNat).toNat = c.toNat := by
    rw [UInt8.toNat_ofNat']
    omega
  rw [echoChars_cons, utf8EncodeChar_ascii hc]
  simp only [List.map_cons, List.map_nil, hval, Char.ofNat_toNat]
  rfl

theorem length_echoChars {cs : List Char} {pieces : List (List Char)}
    (h : List.Forall₂ LowerPiece cs pieces) : pieces.flatten.length ≤ (echoChars cs).length := by
  induction h with
  | nil => simp
  | cons hhead _ ih =>
    have hpiece := lowerPiece_length hhead
    rw [echoChars_cons, List.flatten_cons, List.length_append, List.length_append, List.length_map,
      String.length_utf8EncodeChar]
    omega

/-- Name and echo have one key only when every character is ASCII: any other is
longer in the echo, except U+0130, which begins differently there. -/
theorem ascii_of_echoChars_eq {cs : List Char} {pieces : List (List Char)}
    (h : List.Forall₂ LowerPiece cs pieces) (heq : echoChars cs = pieces.flatten) :
    ∀ c ∈ cs, c.toNat < 128 := by
  induction h with
  | nil => simp
  | @cons c piece cs pieces hhead htail ih =>
    by_cases hc : c.toNat < 128
    · rw [echoChars_ascii_cons hc, List.flatten_cons, lowerPiece_latin hhead (by omega)] at heq
      have hrest := (List.cons.inj heq).2
      exact List.forall_mem_cons.mpr ⟨hc, ih hrest⟩
    · exfalso
      have htwo := two_le_utf8Size hc
      have hlen := length_echoChars htail
      by_cases hdot : c.toNat = 0x130
      · have hchar : c = Char.ofNat 0x130 := by
          rw [← hdot, Char.ofNat_toNat]
        unfold LowerPiece at hhead
        rw [if_pos hdot] at hhead
        have hbytes : String.utf8EncodeChar (Char.ofNat 0x130) = [0xC4, 0xB0] := by decide
        rw [hhead, hchar, echoChars_cons, hbytes] at heq
        exact absurd (List.cons.inj heq).1 (by decide)
      · unfold LowerPiece at hhead
        rw [if_neg hdot] at hhead
        have hsame := congrArg List.length heq
        rw [echoChars_cons, List.flatten_cons, List.length_append, List.length_append,
          List.length_map, String.length_utf8EncodeChar, hhead.1] at hsame
        omega

theorem latin1_utf8_ascii {name : String} (h : AsciiText name) : latin1 (utf8 name) = name := by
  apply String.toList_inj.mp
  rw [toList_latin1]
  unfold utf8
  unfold AsciiText at h
  generalize name.toList = cs at h ⊢
  induction cs with
  | nil => rfl
  | cons c cs ih =>
    have hc := h c List.mem_cons_self
    have hval : (UInt8.ofNat c.toNat).toNat = c.toNat := by
      rw [UInt8.toNat_ofNat']
      omega
    rw [List.flatMap_cons, utf8EncodeChar_ascii hc, List.map_append,
      ih fun d hd => h d (List.mem_cons_of_mem c hd)]
    simp only [List.map_cons, List.map_nil, hval, Char.ofNat_toNat]
    rfl

theorem key_of_echo_iff {lower : String → String} (hlower : LowersPiecewise lower) (name : String) :
    lower (latin1 (utf8 name)) = lower name ↔ AsciiText name := by
  constructor
  · intro hkey
    obtain ⟨pieces, hpieces, hflat⟩ := hlower name
    have hchars := congrArg String.toList hkey
    rw [lower_latin1 hlower, hflat] at hchars
    exact ascii_of_echoChars_eq hpieces hchars
  · intro hascii
    rw [latin1_utf8_ascii hascii]

/-- A lookup that is not answered from the cache gets its id from a reply that
echoes the bytes of its request. -/
def EchoResolves (lower : String → String) (name : String) : Prop :=
  ∀ (c c' : Client) (f charId : ℕ) (b : Bytes), charId ≠ notFound →
    c.beginLookup lower name = .inr (f, c') →
    encodeArgs clientLookup [.str name] = .ok (bytesOfNat 2 b.length ++ b) →
    ∃ c'', dispatch lower c' ⟨clientLookup, [.int charId, .str b]⟩ = .ok (c'', none) ∧
      c''.futures f = .done (some charId)

theorem request_bytes {name : String} {b : Bytes}
    (h : encodeArgs clientLookup [.str name] = .ok (bytesOfNat 2 b.length ++ b)) : b = utf8 name := by
  obtain ⟨schema, hschema, h⟩ := except_bind_eq_ok.mp h
  cases hschema
  obtain ⟨arg, harg, h⟩ := except_bind_eq_ok.mp h
  obtain ⟨rest, hrest, h⟩ := except_bind_eq_ok.mp h
  cases hrest
  obtain ⟨head, hhead, harg⟩ := except_bind_eq_ok.mp harg
  have hsplit : head ++ utf8 name = bytesOfNat 2 b.length ++ b := by
    have harg' : head ++ utf8 name = arg := Except.ok.inj harg
    have htotal : arg ++ [] = bytesOfNat 2 b.length ++ b := Except.ok.inj h
    rw [harg', ← htotal, List.append_nil]
  have hwidth : head.length = (bytesOfNat 2 b.length).length := by
    rw [(pack_eq_ok.mp hhead).2, length_bytesOfNat, length_bytesOfNat]
  exact (List.append_inj_right hsplit hwidth).symm

theorem encode_request {name : String} (hlen : (utf8 name).length < 65536) :
    encodeArgs clientLookup [.str name] = .ok (bytesOfNat 2 (utf8 name).length ++ utf8 name) := by
  have hpack : pack 2 ((utf8 name).length : ℤ) = .ok (bytesOfNat 2 (utf8 name).length) :=
    pack_eq_ok.mpr ⟨⟨by omega, by norm_num; omega⟩, by rw [Int.toNat_natCast]⟩
  have harg : encodeArg .str (.str name) = .ok (bytesOfNat 2 (utf8 name).length ++ utf8 name) := by
    simp only [encodeArg]
    rw [hpack]
    rfl
  have hschema : schemaOf outSchemas clientLookup = .ok [.str] := rfl
  unfold encodeArgs
  rw [hschema, ok_bind]
  unfold encodeCodes
  rw [harg, ok_bind]
  unfold encodeCodes
  rw [ok_bind, List.append_nil]
  rfl

theorem dispatch_reply {lower : String → String} (c : Client) {charId : ℕ} (hid : charId ≠ notFound)
    (b : Bytes) :
    dispatch lower c ⟨clientLookup, [.int charId, .str b]⟩ =
      .ok ((c.remember (lower (latin1 b)) (some charId)).resolve (lower (latin1 b)) (some charId),
        none) := by
  show Except.ok (c.receiveLookup lower charId b, none) = _
  unfold Client.receiveLookup
  rw [if_neg hid]

/-- An echo of the request finds its waiter exactly when the name is ASCII. -/
theorem echoResolves_iff {lower : String → String} (hlower : LowersPiecewise lower) {name : String}
    (hlen : (utf8 name).length < 65536) : EchoResolves lower name ↔ AsciiText name := by
  rw [← key_of_echo_iff hlower name]
  constructor
  · intro hresolves
    by_contra hkey
    -- in a new session the only waiter is the call's own, filed under another key
    obtain ⟨c'', hdispatch, hdone⟩ := hresolves {} _ 0 1 (utf8 name) (by decide) rfl
      (encode_request hlen)
    rw [dispatch_reply _ (by decide)] at hdispatch
    have hsame := (Prod.mk.inj (Except.ok.inj hdispatch)).1
    rw [← hsame] at hdone
    simp [Client.resolve, Client.remember, Function.update_of_ne hkey] at hdone
  · intro hkey c c' f charId b hid hbegin hrequest
    have hb := request_bytes hrequest
    subst hb
    refine ⟨_, dispatch_reply c' hid (utf8 name), ?_⟩
    rw [hkey]
    unfold Client.beginLookup at hbegin
    simp only at hbegin
    split at hbegin
    · cases hbegin
    · cases hbegin
      simp [Client.resolve, Client.remember]

/-- Bytes that came in as text go out as they came, and a lookup is resolved by the
echo of its name, exactly when they are ASCII. -/
theorem text_survives_iff {lower : String → String} (hlower : LowersPiecewise lower) :
    (∀ b : Bytes, b.length < 65536 → (Returns b ↔ AsciiBytes b)) ∧
      ∀ name : String, (utf8 name).length < 65536 → (EchoResolves lower name ↔ AsciiText name) :=
  ⟨fun _ hlen => returns_iff hlen, fun _ hlen => echoResolves_iff hlower hlen⟩

/-- `str.lower` on ASCII, Latin-1 and U+0130. -/
def lowerLatin (s : String) : String :=
  String.ofList (s.toList.flatMap fun c =>
    if c.toNat = 0x130 then ['i', Char.ofNat 0x307] else [lowerChar c])

theorem lowerLatin_piecewise : LowersPiecewise lowerLatin := by
  intro s
  refine ⟨s.toList.map fun c =>
    if c.toNat = 0x130 then ['i', Char.ofNat 0x307] else [lowerChar c], ?_, ?_⟩
  · rw [List.forall₂_map_right_iff, List.forall₂_same]
    intro c _
    unfold LowerPiece
    by_cases hc : c.toNat = 0x130
    · rw [if_pos hc, if_pos hc]
    · rw [if_neg hc, if_neg hc]
      exact ⟨rfl, fun _ => rfl⟩
  · rw [lowerLatin, String.toList_ofList, List.flatMap_def]

theorem ascii_survives : Returns [72, 105] ∧ EchoResolves lowerLatin "Tara" := by
  obtain ⟨hbytes, hnames⟩ := text_survives_iff lowerLatin_piecewise
  have hlen : (utf8 "Tara").length = 4 := rfl
  exact ⟨(hbytes [72, 105] (by decide)).mpr (by simp [AsciiBytes]),
    (hnames "Tara" (by omega)).mpr (by simp [AsciiText])⟩

/-- The byte of a Latin-1 letter goes out as two, and a name with that letter is
asked for and answered, and its lookup still waits. -/
theorem accent_is_lost :
    ¬ Returns [0xe9] ∧ ¬ EchoResolves lowerLatin (String.ofList [Char.ofNat 0xe9]) := by
  constructor
  · unfold Returns
    decide
  · intro h
    have hlen : (utf8 (String.ofList [Char.ofNat 0xe9])).length = 2 := rfl
    obtain ⟨c'', hdispatch, hdone⟩ := h {} _ 0 1 _ (by decide) rfl (encode_request (by omega))
    cases hdispatch
    exact absurd hdone (by decide)

end AoMarket.TextCodec
