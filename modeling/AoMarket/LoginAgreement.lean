import AoMarket.CipherBlocks
import AoMarket.LoginProtocol

/-!
A login against a server that welcomes the client: it sends a seed, a character list
and LOGIN_OK, each as one frame. The login then succeeds with the first character of
the list that has the configured name, reads not one byte past LOGIN_OK, and the
server finds two packets on the wire: the request, whose key holds the credentials
and its own seed, and the id of that character.
-/

namespace AoMarket.LoginAgreement

open Coroutine Environment Framing Packet Connection HexText BlockCipher Crypto ChatClient Login
  LoginProtocol CipherBlocks
open WireFormat (OutPacket Arrives frames_read_back payloadSize argSize ArgFits)
open InboundArgs (encodeIn encodeStr Matches decodeCodes_encodeIn)

/-! The server's packets -/

/-- An entry of the character list, within the bounds of its fields. -/
structure Listing where
  id : ℕ
  name : Bytes
  level : ℕ
  online : ℕ
  id_lt : id < 2 ^ 32
  name_le : name.length ≤ 65535
  level_lt : level < 2 ^ 32
  online_lt : online < 2 ^ 32

def charlistArgs (listings : List Listing) : List InArg :=
  [.ints (listings.map Listing.id), .strs (listings.map Listing.name),
    .ints (listings.map Listing.level), .ints (listings.map Listing.online)]

/-- What a server sends during a login that succeeds; both payloads fit their frames. -/
structure Welcome where
  seed : Bytes
  listings : List Listing
  seed_fits : (encodeIn (.str seed)).length < 256 ^ 2
  list_fits : ((charlistArgs listings).flatMap encodeIn).length < 256 ^ 2

def Welcome.stream (w : Welcome) : Bytes :=
  frame loginSeed (([.str w.seed] : List InArg).flatMap encodeIn) ++
    frame loginCharlist ((charlistArgs w.listings).flatMap encodeIn) ++ frame loginOk []

def Listing.character (capitalize : String → String) (l : Listing) : CharacterInfo :=
  { id := l.id, name := capitalize (latin1 l.name), level := l.level, online := l.online }

theorem inSchemas_type {ptype : ℕ} {schema : List Code}
    (h : inSchemas.lookup ptype = some schema) : ptype < 256 ^ 2 := by
  have hall : ∀ entry ∈ inSchemas, entry.1 < 256 ^ 2 := by decide
  obtain ⟨l, r, heq, _⟩ := List.lookup_eq_some_iff.mp h
  have hmem : (ptype, schema) ∈ inSchemas := by
    rw [heq]
    simp
  exact hall _ hmem

/-- A frame with the encoding of arguments that match its type is read as that packet. -/
theorem readPacket_encoded (ending : Ending) {ptype : ℕ} {schema : List Code}
    {args : List InArg} (hschema : inSchemas.lookup ptype = some schema)
    (hmatch : List.Forall₂ Matches schema args)
    (hlen : (args.flatMap encodeIn).length < 256 ^ 2) (rest : Bytes) :
    readPacket ending (frame ptype (args.flatMap encodeIn) ++ rest) = .ok (⟨ptype, args⟩, rest) := by
  have hframe := readFrame_frame ending (inSchemas_type hschema) hlen rest
  have hdecode : decodePacket ptype (args.flatMap encodeIn) = .ok ⟨ptype, args⟩ := by
    have hcodes := decodeCodes_encodeIn hmatch []
    rw [List.append_nil] at hcodes
    simp [decodePacket, decodeArgs, schemaOf, hschema, hcodes, bind, Except.bind, pure, Except.pure]
  unfold readPacket
  rw [hframe]
  simp only [bind, Except.bind, hdecode]
  rfl

theorem matches_seed (w : Welcome) : List.Forall₂ Matches [.str] [.str w.seed] := by
  have hlen := w.seed_fits
  simp only [encodeIn, encodeStr, List.length_append, length_bytesOfNat] at hlen
  refine List.Forall₂.cons ?_ List.Forall₂.nil
  show w.seed.length ≤ 65535
  omega

theorem matches_charlist (w : Welcome) :
    List.Forall₂ Matches [.ints, .strs, .ints, .ints] (charlistArgs w.listings) := by
  have hcount : w.listings.length ≤ 65535 := by
    have hlen := w.list_fits
    have hids : ∀ l : List Listing, ((l.map Listing.id).flatMap (bytesOfNat 4)).length =
        4 * l.length := by
      intro l
      induction l with
      | nil => rfl
      | cons a l ih =>
        rw [List.map_cons, List.flatMap_cons, List.length_append, length_bytesOfNat, ih,
          List.length_cons]
        omega
    simp only [charlistArgs, List.flatMap_cons, encodeIn, List.length_append, length_bytesOfNat,
      hids] at hlen
    omega
  have hints : ∀ f : Listing → ℕ, (∀ l, f l < 2 ^ 32) →
      Matches .ints (.ints (w.listings.map f)) := by
    intro f hf
    refine ⟨by rwa [List.length_map], fun n hn => ?_⟩
    obtain ⟨l, _, rfl⟩ := List.mem_map.mp hn
    exact hf l
  have hnames : Matches .strs (.strs (w.listings.map Listing.name)) := by
    refine ⟨by rwa [List.length_map], fun b hb => ?_⟩
    obtain ⟨l, _, rfl⟩ := List.mem_map.mp hb
    exact l.name_le
  exact List.Forall₂.cons (hints _ Listing.id_lt) (List.Forall₂.cons hnames
    (List.Forall₂.cons (hints _ Listing.level_lt)
      (List.Forall₂.cons (hints _ Listing.online_lt) List.Forall₂.nil)))

theorem charactersOf_listings (capitalize : String → String) (listings : List Listing) :
    charactersOf capitalize (listings.map Listing.id) (listings.map Listing.name)
      (listings.map Listing.level) (listings.map Listing.online) =
        .ok (listings.map (Listing.character capitalize)) := by
  induction listings with
  | nil => rfl
  | cons l rest ih =>
    simp only [List.map_cons, charactersOf, ih, bind, Except.bind]
    rfl

/-! The key -/

theorem isHex_ascii {c : Char} (h : IsHex c) : c.toNat < 128 := by
  obtain ⟨d, hd, rfl⟩ := h
  interval_cases d <;> decide

theorem length_utf8_ascii {s : String} (h : TextCodec.AsciiText s) :
    (utf8 s).length = s.toList.length := by
  unfold TextCodec.AsciiText at h
  unfold utf8
  generalize s.toList = cs at h ⊢
  induction cs with
  | nil => rfl
  | cons c cs ih =>
    rw [List.flatMap_cons, List.length_append,
      TextCodec.utf8EncodeChar_ascii (h c List.mem_cons_self),
      ih fun d hd => h d (List.mem_cons_of_mem c hd), List.length_singleton, List.length_cons]
    omega

/-- The text under the cipher: 8 random bytes, the length, the login string, spaces. -/
def plainText (random login : Bytes) : Bytes :=
  random ++ bytesOfNat 4 login.length ++ login ++
    List.replicate (padLength (8 + 4 + login.length)) 32

theorem length_plainText {random login : Bytes} (hrandom : random.length = 8) :
    (plainText random login).length = 8 + 4 + login.length + padLength (8 + 4 + login.length) := by
  simp only [plainText, List.length_append, hrandom, length_bytesOfNat, List.length_replicate]

/-- The key is derived, the server reads the text in it, and it is no longer than the
digits of the public value and two digits for every byte of the text. -/
theorem loginKey_read {dh : DhParams} {y : ℕ} (hY : dh.Y = dh.G ^ y % dh.N) (hN : 0 < dh.N)
    (hsize : dh.N ≤ 16 ^ 256) (serverSeed : Bytes) (username password : String) (x : ℕ)
    {random : Bytes} (hrandom : random.length = 8)
    (hlogin : (loginString serverSeed username password).length < 2 ^ 32) :
    ∃ key, generateLoginKey dh serverSeed username password x random = .ok key ∧
      serverRead dh y key = some (plainText random (loginString serverSeed username password)) ∧
      (utf8 key).length ≤ 257 + 2 * (19 + (loginString serverSeed username password).length) := by
  set login := loginString serverSeed username password with hlogindef
  have hpack : pack 4 (login.length : ℤ) = .ok (bytesOfNat 4 login.length) := by
    refine pack_eq_ok.mpr ⟨⟨by omega, by norm_num; omega⟩, ?_⟩
    rw [Int.toNat_natCast]
  have hpad : padLength (8 + 4 + login.length) < 8 := Nat.mod_lt _ (by omega)
  have hplain : (plainText random login).length % 8 = 0 := by
    rw [length_plainText hrandom]
    exact padded_length login.length
  obtain ⟨crypted, hcrypt, hread⟩ := serverRead_loginKey hY x hplain
  obtain ⟨key, _, htext⟩ := aochatCrypt_ok (dh.Y ^ x % dh.N) hplain
  have hhex : crypted = hexOfBytes (bytesOfBlocks
      (chain xorBlock (permute key) (0, 0) (pairs (words (plainText random login))))) := by
    rw [hcrypt] at htext
    exact Except.ok.inj htext
  have hdigits : (Nat.toDigits 16 (dh.G ^ x % dh.N)).length ≤ 256 :=
    (Nat.length_toDigits_le_iff (by omega) (by omega)).mpr
      (Nat.lt_of_lt_of_le (Nat.mod_lt _ hN) hsize)
  have hcrypted : crypted.length = 2 * (plainText random login).length := by
    rw [hhex, length_hexOfBytes, length_bytesOfBlocks, ← @length_encrypted key _ hplain]
    rfl
  refine ⟨_, ?_, hread, ?_⟩
  · unfold generateLoginKey
    simp only [← hlogindef, hpack, ok_bind]
    unfold plainText at hcrypt
    rw [hcrypt]
    rfl
  · rw [length_utf8_ascii, String.toList_ofList, List.length_append, List.length_cons, hcrypted,
      length_plainText hrandom]
    · omega
    · intro c hc
      rw [String.toList_ofList, List.mem_append, List.mem_cons] at hc
      rcases hc with hc | rfl | hc
      · exact isHex_ascii (isHex_of_mem_toDigits hc)
      · decide
      · rw [hhex] at hc
        exact isHex_ascii (isHex_of_mem_hexOfBytes hc)

theorem dhN_pos : 0 < dhN := by decide +kernel

theorem dhN_lt : dhN < 16 ^ 256 := by decide +kernel

/-- The client's own constants are within these bounds, so the server that holds the
exponent of DH_Y reads every key. -/
theorem protocolKey_read {y : ℕ} (hY : protocolParams.Y = protocolParams.G ^ y % protocolParams.N)
    (serverSeed : Bytes) (username password : String) (x : ℕ) {random : Bytes}
    (hrandom : random.length = 8)
    (hlogin : (loginString serverSeed username password).length < 2 ^ 32) :
    ∃ key, generateLoginKey protocolParams serverSeed username password x random = .ok key ∧
      serverRead protocolParams y key =
        some (plainText random (loginString serverSeed username password)) := by
  obtain ⟨key, hkey, hread, _⟩ := loginKey_read hY dhN_pos dhN_lt.le serverSeed username password x
    hrandom hlogin
  exact ⟨key, hkey, hread⟩

/-! The login -/

variable {link : Link} {account : Account} {s : State}

theorem utf8_length_le_loginString (serverSeed : Bytes) (username password : String) :
    (utf8 username).length ≤ (loginString serverSeed username password).length := by
  simp only [loginString, List.length_append]
  omega

/-- Within the bound every field of the request fits its packet. -/
theorem request_fits {key : String} {serverSeed : Bytes}
    (hlogin : (loginString serverSeed account.username account.password).length ≤ 21744)
    (hkey : (utf8 key).length ≤
      257 + 2 * (19 + (loginString serverSeed account.username account.password).length)) :
    OutPacket.WellTyped ⟨loginRequest, request account key⟩ ∧
      OutPacket.Fits ⟨loginRequest, request account key⟩ := by
  have huser := utf8_length_le_loginString serverSeed account.username account.password
  refine ⟨⟨[.int, .str, .str], rfl, by simp [request, WireFormat.Suits]⟩, ?_, ?_⟩
  · simp only [request, List.mem_cons, List.not_mem_nil, or_false, forall_eq_or_imp, forall_eq,
      ArgFits]
    exact ⟨by decide, by omega, by omega⟩
  · simp only [request, payloadSize, argSize, List.map_cons, List.map_nil, List.sum_cons,
      List.sum_nil]
    omega

theorem encodes {ptype : ℕ} {args : List OutArg} (htyped : OutPacket.WellTyped ⟨ptype, args⟩)
    (hfits : OutPacket.Fits ⟨ptype, args⟩) : ∃ frame, encodePacket ptype args = .ok frame := by
  obtain ⟨payload, _, henc, _⟩ := OutPacket.encode_fits htyped hfits
  exact ⟨_, henc⟩

theorem mapM_pair {α β ε : Type} {f : α → Except ε β} {a a' : α} {b b' : β} (h : f a = .ok b)
    (h' : f a' = .ok b') : [a, a'].mapM f = .ok [b, b'] := by
  simp only [List.mapM_cons, List.mapM_nil, h, h', bind, Except.bind, pure, Except.pure]

theorem select_fits (l : Listing) :
    OutPacket.WellTyped ⟨loginSelect, [.int l.id]⟩ ∧ OutPacket.Fits ⟨loginSelect, [.int l.id]⟩ := by
  have hid : (l.id : ℤ) < 2 ^ 32 := by exact_mod_cast l.id_lt
  refine ⟨⟨[.int], rfl, by simp [WireFormat.Suits]⟩, ?_, ?_⟩
  · simp only [List.mem_singleton, forall_eq, ArgFits]
    exact ⟨Int.natCast_nonneg _, hid⟩
  · show 4 + 0 ≤ 65535
    omega

/-- Client and server agree: the login succeeds, both packets arrive as they were meant, and the
server finds the credentials in the key. The bound on the login string keeps the request within
its frame. -/
theorem login_agrees {w : Welcome} {l : Listing} {rest : Bytes} {y : ℕ}
    (hY : link.dh.Y = link.dh.G ^ y % link.dh.N) (hN : 0 < link.dh.N)
    (hsize : link.dh.N ≤ 16 ^ 256) (hrandom : link.random.length = 8)
    (hconnected : link.connected = .ok ()) (hdrained : ∀ n, link.drained n = .ok ())
    (hlogin : (loginString w.seed account.username account.password).length ≤ 21744)
    (hinbound : s.inbound = w.stream ++ rest)
    (hfound : (w.listings.find? fun l =>
      link.capitalize (latin1 l.name) = link.capitalize account.characterName) = some l) :
    ∃ key requested selected,
      (login link account).run s =
        (.ok (), { inbound := rest, outbound := s.outbound ++ requested ++ selected,
                   sent := s.sent + 2,
                   characters := w.listings.map (Listing.character link.capitalize),
                   selected := some (l.character link.capitalize) }) ∧
      (∀ ending, ∃ read, readMany (readFrame ending) 2 (requested ++ selected) = .ok (read, []) ∧
        List.Forall₂ Arrives
          [⟨loginRequest, request account key⟩, ⟨loginSelect, [.int l.id]⟩] read) ∧
      serverRead link.dh y key =
        some (plainText link.random (loginString w.seed account.username account.password)) := by
  obtain ⟨key, hkey, hread, hlen⟩ := loginKey_read hY hN hsize w.seed account.username
    account.password link.exponent hrandom (by omega)
  obtain ⟨htyped, hfits⟩ := request_fits hlogin hlen
  obtain ⟨htyped', hfits'⟩ := select_fits l
  obtain ⟨requested, hrequest⟩ := encodes htyped hfits
  obtain ⟨selected, hselect⟩ := encodes htyped' hfits'
  have hchosen : chosen link account (w.listings.map (Listing.character link.capitalize)) =
      some (l.character link.capitalize) := by
    unfold chosen
    rw [List.find?_map]
    have hsame : ((fun c : CharacterInfo => decide (c.name = link.capitalize account.characterName)) ∘
        Listing.character link.capitalize) = fun l : Listing =>
          decide (link.capitalize (latin1 l.name) = link.capitalize account.characterName) := rfl
    rw [hsame, hfound]
    rfl
  have hstream : s.inbound = frame loginSeed (([.str w.seed] : List InArg).flatMap encodeIn) ++
      (frame loginCharlist ((charlistArgs w.listings).flatMap encodeIn) ++
        (frame loginOk (([] : List InArg).flatMap encodeIn) ++ rest)) := by
    rw [hinbound, Welcome.stream]
    simp only [List.append_assoc, List.flatMap_nil]
  let q : Request link account s :=
    { args := [.str w.seed]
      rest := _
      seed := w.seed
      key := key
      frame := _
      received := by
        rw [hstream]
        refine readPacket_encoded link.ending rfl (matches_seed w) ?_ _
        simpa using w.seed_fits
      seed_arg := rfl
      derived := hkey
      encoded := hrequest }
  let c : Choice link account q.after :=
    { args := charlistArgs w.listings
      rest := _
      listed := w.listings.map (Listing.character link.capitalize)
      selected := l.character link.capitalize
      frame := _
      received := readPacket_encoded link.ending rfl (matches_charlist w) w.list_fits _
      decoded := charactersOf_listings _ _
      found := hchosen
      encoded := hselect }
  have hok : readPacket link.ending c.rest = .ok (⟨loginOk, []⟩, rest) :=
    readPacket_encoded link.ending rfl List.Forall₂.nil (by decide) rest
  refine ⟨key, requested, selected, ?_, ?_, hread⟩
  · exact run_login hconnected (hdrained _) (hdrained _) q c hok
  · intro ending
    have hwell : ∀ p ∈ ([⟨loginRequest, request account key⟩, ⟨loginSelect, [.int l.id]⟩] :
        List OutPacket), p.WellTyped ∧ p.Fits := by
      intro p hp
      rcases List.mem_pair.mp hp with rfl | rfl
      · exact ⟨htyped, hfits⟩
      · exact ⟨htyped', hfits'⟩
    obtain ⟨frames, read, hframes, hreads, harrive⟩ := frames_read_back hwell ending
    have hboth : frames = [requested, selected] := by
      rw [@mapM_pair OutPacket Bytes PyErr (fun p => encodePacket p.type p.args)
        ⟨loginRequest, request account key⟩ ⟨loginSelect, [.int l.id]⟩ requested selected hrequest
          hselect] at hframes
      exact (Except.ok.inj hframes).symm
    have hall := readMany_flatten hreads []
    rw [← harrive.length_eq, hboth, List.append_nil, List.flatten_cons, List.flatten_cons,
      List.flatten_nil, List.append_nil] at hall
    exact ⟨read, hall, harrive⟩

def taraListing : Listing where
  id := 7
  name := [84, 97, 114, 97]
  level := 220
  online := 0
  id_lt := by decide
  name_le := by decide
  level_lt := by decide
  online_lt := by decide

def taraWelcome : Welcome where
  seed := [1, 2, 3]
  listings := [taraListing]
  seed_fits := by decide
  list_fits := by decide

def taraLink : Link where
  py := .ascii
  dh := seventhPower
  exponent := 11
  random := [0, 1, 2, 3, 4, 5, 6, 7]
  connected := .ok ()
  drained _ := .ok ()
  ending := .eof
  capitalize s := s

def taraAccount : Account := ⟨"tara", "secret", "Tara"⟩

theorem tara_logs_in : ∃ key requested selected,
    (login taraLink taraAccount).run { inbound := taraWelcome.stream ++ [9] } =
      (.ok (), { inbound := [9], outbound := [] ++ requested ++ selected, sent := 2,
                 characters := [taraListing].map (Listing.character fun s => s),
                 selected := some (taraListing.character fun s => s) }) ∧
    (∀ ending, ∃ read, readMany (readFrame ending) 2 (requested ++ selected) = .ok (read, []) ∧
      List.Forall₂ Arrives
        [⟨loginRequest, request taraAccount key⟩, ⟨loginSelect, [.int taraListing.id]⟩] read) ∧
    serverRead seventhPower 7 key =
      some (plainText [0, 1, 2, 3, 4, 5, 6, 7] (loginString [1, 2, 3] "tara" "secret")) :=
  @login_agrees taraLink taraAccount { inbound := taraWelcome.stream ++ [9] } taraWelcome
    taraListing [9] 7 rfl (by decide) (by decide) rfl rfl (fun _ => rfl) (by decide) rfl rfl

end AoMarket.LoginAgreement
