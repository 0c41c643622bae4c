import AoMarket.ChatClient

/-!
The read loop over a stream of frames. A turn reads one frame, decodes it and
passes it to _dispatch, and an exception of any of the three ends the loop unless
it says that the connection is gone. So the loop outlives a stream exactly when
every frame it comes to decodes and is handled: there is no frame that it skips.
-/

namespace AoMarket.ReadLoop

open Environment Packet Framing Connection ChatClient

structure Frame where
  type : ℕ
  payload : Bytes
  type_lt : type < 256 ^ 2
  payload_lt : payload.length < 256 ^ 2

namespace Frame

def bytes (f : Frame) : Bytes := frame f.type f.payload

/-- The packet _dispatch gets for a frame; `none` when the decoder raises. -/
def packet (f : Frame) : Option InboundPacket := (decodePacket f.type f.payload).toOption

theorem decode_of_packet {f : Frame} {pkt : InboundPacket} (h : f.packet = some pkt) :
    decodePacket f.type f.payload = .ok pkt := by
  unfold packet at h
  cases hdec : decodePacket f.type f.payload with
  | error e =>
    rw [hdec] at h
    cases h
  | ok pkt' =>
    rw [hdec] at h
    cases h
    rfl

end Frame

/-! Payloads that hold every field of a schema -/

def afterStr (data : Bytes) : Option Bytes :=
  match unpack 2 data with
  | .ok (length, rest) => if length ≤ rest.length then some (rest.drop length) else none
  | .error _ => none

def afterInts : ℕ → Bytes → Option Bytes
  | 0, data => some data
  | count + 1, data => if 4 ≤ data.length then afterInts count (data.drop 4) else none

def afterStrs : ℕ → Bytes → Option Bytes
  | 0, data => some data
  | count + 1, data => (afterStr data).bind (afterStrs count)

def afterCount (after : ℕ → Bytes → Option Bytes) (data : Bytes) : Option Bytes :=
  match unpack 2 data with
  | .ok (count, rest) => after count rest
  | .error _ => none

def afterField : Code → Bytes → Option Bytes
  | .int, data => afterInts 1 data
  | .str, data => afterStr data
  | .ints, data => afterCount afterInts data
  | .strs, data => afterCount afterStrs data

def holdsAll : List Code → Bytes → Bool
  | [], _ => true
  | code :: codes, data =>
    match afterField code data with
    | some rest => holdsAll codes rest
    | none => false

/-- The type is in IN_SCHEMAS and the payload holds all of its fields. -/
def Frame.fits (f : Frame) : Bool :=
  match inSchemas.lookup f.type with
  | some schema => holdsAll schema f.payload
  | none => false

theorem unpack_of_le {width : ℕ} {data : Bytes} (h : width ≤ data.length) :
    unpack width data = .ok (natOfBytes (data.take width), data.drop width) := if_pos h

theorem decodeStr_of_after {data rest : Bytes} (h : afterStr data = some rest) :
    ∃ b, decodeStr data = .ok (b, rest) := by
  unfold afterStr at h
  unfold decodeStr
  cases hu : unpack 2 data with
  | error e =>
    rw [hu] at h
    cases h
  | ok r =>
    rw [hu] at h
    obtain ⟨length, data'⟩ := r
    simp only at h
    by_cases hlen : length ≤ data'.length
    · rw [if_pos hlen] at h
      cases h
      exact ⟨data'.take length, rfl⟩
    · rw [if_neg hlen] at h
      cases h

theorem decodeInts_of_after {count : ℕ} {data rest : Bytes} (h : afterInts count data = some rest) :
    ∃ ns, decodeInts count data = .ok (ns, rest) := by
  induction count generalizing data with
  | zero =>
    cases h
    exact ⟨[], rfl⟩
  | succ count ih =>
    unfold afterInts at h
    by_cases hlen : 4 ≤ data.length
    · rw [if_pos hlen] at h
      obtain ⟨ns, hns⟩ := ih h
      refine ⟨natOfBytes (data.take 4) :: ns, ?_⟩
      unfold decodeInts
      rw [unpack_of_le hlen, ok_bind]
      simp only [hns, ok_bind]
      rfl
    · rw [if_neg hlen] at h
      cases h

theorem decodeStrs_of_after {count : ℕ} {data rest : Bytes} (h : afterStrs count data = some rest) :
    ∃ bs, decodeStrs count data = .ok (bs, rest) := by
  induction count generalizing data with
  | zero =>
    cases h
    exact ⟨[], rfl⟩
  | succ count ih =>
    obtain ⟨data', hstr, hrest⟩ := Option.bind_eq_some_iff.mp h
    obtain ⟨b, hb⟩ := decodeStr_of_after hstr
    obtain ⟨bs, hbs⟩ := ih hrest
    refine ⟨b :: bs, ?_⟩
    unfold decodeStrs
    rw [hb, ok_bind]
    simp only [hbs, ok_bind]
    rfl

theorem afterCount_eq_some {after : ℕ → Bytes → Option Bytes} {data rest : Bytes}
    (h : afterCount after data = some rest) :
    ∃ count data', unpack 2 data = .ok (count, data') ∧ after count data' = some rest := by
  unfold afterCount at h
  cases hu : unpack 2 data with
  | error e =>
    rw [hu] at h
    cases h
  | ok r =>
    rw [hu] at h
    exact ⟨r.1, r.2, rfl, h⟩

/-- A field that is all there is decoded, and the decoder stops behind it. -/
theorem decodeArg_of_after {code : Code} {data rest : Bytes} (h : afterField code data = some rest) :
    ∃ a, decodeArg code data = .ok (a, rest) := by
  cases code with
  | int =>
    obtain ⟨ns, hns⟩ := @decodeInts_of_after 1 data rest h
    obtain ⟨⟨n, data'⟩, hn, hns⟩ := except_bind_eq_ok.mp hns
    cases hns
    exact ⟨.int n, by simp only [decodeArg, hn, ok_bind]; rfl⟩
  | str =>
    obtain ⟨b, hb⟩ := decodeStr_of_after h
    exact ⟨.str b, by simp only [decodeArg, hb, ok_bind]; rfl⟩
  | ints =>
    obtain ⟨count, data', hu, hafter⟩ := afterCount_eq_some h
    obtain ⟨ns, hns⟩ := decodeInts_of_after hafter
    exact ⟨.ints ns, by simp only [decodeArg, hu, hns, ok_bind]; rfl⟩
  | strs =>
    obtain ⟨count, data', hu, hafter⟩ := afterCount_eq_some h
    obtain ⟨bs, hbs⟩ := decodeStrs_of_after hafter
    exact ⟨.strs bs, by simp only [decodeArg, hu, hbs, ok_bind]; rfl⟩

theorem decodeCodes_of_holdsAll {schema : List Code} {data : Bytes} (h : holdsAll schema data = true) :
    ∃ args, decodeCodes schema data = .ok args := by
  induction schema generalizing data with
  | nil => exact ⟨[], rfl⟩
  | cons code schema ih =>
    unfold holdsAll at h
    cases hafter : afterField code data with
    | none =>
      rw [hafter] at h
      cases h
    | some rest =>
      rw [hafter] at h
      obtain ⟨a, ha⟩ := decodeArg_of_after hafter
      obtain ⟨args, hargs⟩ := ih h
      exact ⟨a :: args, by simp only [decodeCodes, ha, hargs, ok_bind]; rfl⟩

/-- A frame whose payload holds all the fields of its type decodes. -/
theorem Frame.packet_of_fits {f : Frame} (h : f.fits = true) : ∃ pkt, f.packet = some pkt := by
  unfold fits at h
  cases hschema : inSchemas.lookup f.type with
  | none =>
    rw [hschema] at h
    cases h
  | some schema =>
    rw [hschema] at h
    obtain ⟨args, hargs⟩ := decodeCodes_of_holdsAll h
    refine ⟨{ type := f.type, args := args }, ?_⟩
    simp only [packet, decodePacket, decodeArgs, schemaOf, hschema, hargs, ok_bind]
    rfl

/-! How the decoder fails -/

theorem unpack_error {width : ℕ} {data : Bytes} {e : PyErr} (h : unpack width data = .error e) :
    e = .struct := by
  unfold unpack at h
  split at h
  · cases h
  · cases h
    rfl

theorem decodeStr_error {data : Bytes} {e : PyErr} (h : decodeStr data = .error e) :
    e = .struct := by
  rcases bind_eq_error h with hu | ⟨_, h⟩
  · exact unpack_error hu
  · cases h

theorem decodeInts_error {count : ℕ} {data : Bytes} {e : PyErr}
    (h : decodeInts count data = .error e) : e = .struct := by
  induction count generalizing data with
  | zero => cases h
  | succ count ih =>
    rcases bind_eq_error h with hu | ⟨r, h⟩
    · exact unpack_error hu
    · rcases bind_eq_error h with hrest | ⟨_, h⟩
      · exact ih hrest
      · cases h

theorem decodeStrs_error {count : ℕ} {data : Bytes} {e : PyErr}
    (h : decodeStrs count data = .error e) : e = .struct := by
  induction count generalizing data with
  | zero => cases h
  | succ count ih =>
    rcases bind_eq_error h with hb | ⟨r, h⟩
    · exact decodeStr_error hb
    · rcases bind_eq_error h with hrest | ⟨_, h⟩
      · exact ih hrest
      · cases h

theorem decodeArg_error {code : Code} {data : Bytes} {e : PyErr}
    (h : decodeArg code data = .error e) : e = .struct := by
  cases code with
  | int =>
    rcases bind_eq_error h with hu | ⟨_, h⟩
    · exact unpack_error hu
    · cases h
  | str =>
    rcases bind_eq_error h with hb | ⟨_, h⟩
    · exact decodeStr_error hb
    · cases h
  | ints =>
    rcases bind_eq_error h with hu | ⟨r, h⟩
    · exact unpack_error hu
    · rcases bind_eq_error h with hns | ⟨_, h⟩
      · exact decodeInts_error hns
      · cases h
  | strs =>
    rcases bind_eq_error h with hu | ⟨r, h⟩
    · exact unpack_error hu
    · rcases bind_eq_error h with hbs | ⟨_, h⟩
      · exact decodeStrs_error hbs
      · cases h

theorem decodeCodes_error {schema : List Code} {data : Bytes} {e : PyErr}
    (h : decodeCodes schema data = .error e) : e = .struct := by
  induction schema generalizing data with
  | nil => cases h
  | cons code schema ih =>
    rcases bind_eq_error h with ha | ⟨r, h⟩
    · exact decodeArg_error ha
    · rcases bind_eq_error h with hrest | ⟨_, h⟩
      · exact ih hrest
      · cases h

/-- KeyError for the type or struct.error for the payload: neither is caught. -/
theorem decodePacket_error {ptype : ℕ} {payload : Bytes} {e : PyErr}
    (h : decodePacket ptype payload = .error e) : e = .key ∨ e = .struct := by
  rcases bind_eq_error h with hargs | ⟨_, h⟩
  · rcases bind_eq_error hargs with hschema | ⟨schema, hdec⟩
    · unfold schemaOf at hschema
      split at hschema
      · cases hschema
      · cases hschema
        exact Or.inl rfl
    · exact Or.inr (decodeCodes_error hdec)
  · cases h

/-! Turns of the loop -/

section Loop
variable {σ : Type} {lower : String → String} {h : Handlers σ} {around : Surroundings σ}
  {ending : Ending}

/-- The turn that takes the packet: the wait for it, then the call of _dispatch. -/
def turnOf (lower : String → String) (h : Handlers σ) (around : Surroundings σ) (turn : ℕ)
    (pkt : InboundPacket) (s : Session σ) : Except PyErr Unit × Session σ :=
  (around.wait turn s).dispatch lower h pkt

theorem dispatched_dispatch (s : Session σ) (pkt : InboundPacket) :
    (s.dispatch lower h pkt).2.dispatched = s.dispatched ++ [pkt] := by
  unfold Session.dispatch
  simp only
  split <;> rfl

theorem dispatched_turnOf (turn : ℕ) (pkt : InboundPacket) (s : Session σ) :
    (turnOf lower h around turn pkt s).2.dispatched = s.dispatched ++ [pkt] :=
  dispatched_dispatch (around.wait turn s) pkt

theorem readPacket_frame (f : Frame) (rest : Bytes) :
    readPacket ending (f.bytes ++ rest) =
      (decodePacket f.type f.payload).map fun pkt => (pkt, rest) := by
  unfold readPacket Frame.bytes
  rw [readFrame_frame ending f.type_lt f.payload_lt rest, ok_bind]
  show (decodePacket f.type f.payload >>= fun pkt => pure (pkt, rest)) = _
  cases decodePacket f.type f.payload <;> rfl

theorem readLoop_stopped {turn : ℕ} (hstop : around.stopping turn = true) (fuel : ℕ) (data : Bytes)
    (s : Session σ) :
    readLoop lower h around ending (fuel + 1) turn data s = some (.stopped, s) := by
  unfold readLoop
  rw [if_pos hstop]

/-- A frame that does not decode ends the loop with an exception. -/
theorem readLoop_undecoded {turn : ℕ} (hstop : around.stopping turn = false) {f : Frame}
    (hf : f.packet = none) (fuel : ℕ) (rest : Bytes) (s : Session σ) :
    ∃ e, readLoop lower h around ending (fuel + 1) turn (f.bytes ++ rest) s =
      some (.raised e, around.wait turn s) := by
  unfold Frame.packet at hf
  unfold readLoop
  rw [hstop, if_neg (by decide), readPacket_frame]
  cases hdec : decodePacket f.type f.payload with
  | ok pkt =>
    rw [hdec] at hf
    cases hf
  | error e =>
    rcases decodePacket_error hdec with rfl | rfl
    · exact ⟨.key, rfl⟩
    · exact ⟨.struct, rfl⟩

theorem readLoop_packet {turn : ℕ} (hstop : around.stopping turn = false) {f : Frame}
    {pkt : InboundPacket} (hf : f.packet = some pkt) (fuel : ℕ) (rest : Bytes) (s : Session σ) :
    readLoop lower h around ending (fuel + 1) turn (f.bytes ++ rest) s =
      match turnOf lower h around turn pkt s with
      | (.error e, s) => some (.raised e, s)
      | (.ok (), s) => readLoop lower h around ending fuel (turn + 1) rest s := by
  rw [readLoop, hstop, if_neg (by decide), readPacket_frame, Frame.decode_of_packet hf]
  rfl

/-- Bytes that are not a whole frame: the loop waits for more until the stream ends. -/
def Unfinished (ending : Ending) (tail : Bytes) : Prop :=
  readFrame ending tail = .error ending.error

theorem unfinished_nil (ending : Ending) : Unfinished ending [] := rfl

theorem readLoop_ended {turn : ℕ} (hstop : around.stopping turn = false) {tail : Bytes}
    (htail : Unfinished ending tail) (fuel : ℕ) (s : Session σ) :
    readLoop lower h around ending (fuel + 1) turn tail s =
      some (.connectionLost, around.wait turn s) := by
  have hread : readPacket ending tail = .error ending.error := by
    unfold readPacket
    rw [htail, error_bind]
  unfold readLoop
  rw [hstop, if_neg (by decide), hread]
  cases ending <;> rfl

/-- The frames the loop comes to before stop() is called. -/
def beforeStop (stopping : ℕ → Bool) : ℕ → List Frame → List Frame
  | _, [] => []
  | turn, f :: rest => if stopping turn then [] else f :: beforeStop stopping (turn + 1) rest

/-- Every frame the loop comes to decodes and is handled without an exception. -/
def Goes (lower : String → String) (h : Handlers σ) (around : Surroundings σ) :
    ℕ → Session σ → List Frame → Prop
  | _, _, [] => True
  | turn, s, f :: rest =>
    around.stopping turn = false →
      ∃ pkt, f.packet = some pkt ∧ (turnOf lower h around turn pkt s).1 = .ok () ∧
        Goes lower h around (turn + 1) (turnOf lower h around turn pkt s).2 rest

def streamOf (frames : List Frame) (tail : Bytes) : Bytes := frames.flatMap Frame.bytes ++ tail

/-- The loop ends without an exception, and the packets of the given frames, and no
others, were passed to _dispatch, in order. -/
def Passes (lower : String → String) (h : Handlers σ) (around : Surroundings σ) (ending : Ending)
    (turn fuel : ℕ) (data : Bytes) (s : Session σ) (wanted : List Frame) : Prop :=
  ∃ exit s', readLoop lower h around ending fuel turn data s = some (exit, s') ∧
    (∀ e, exit ≠ .raised e) ∧ s'.dispatched = s.dispatched ++ wanted.filterMap Frame.packet

/-- A reader that outlives every frame it comes to has passed on their packets, in order. -/
theorem passes_of_goes {frames : List Frame} {turn fuel : ℕ} {s : Session σ} {tail : Bytes}
    (htail : Unfinished ending tail) (hfuel : frames.length < fuel)
    (hgoes : Goes lower h around turn s frames) :
    Passes lower h around ending turn fuel (streamOf frames tail) s
      (beforeStop around.stopping turn frames) := by
  induction frames generalizing turn fuel s with
  | nil =>
    obtain ⟨fuel, rfl⟩ := Nat.exists_eq_succ_of_ne_zero (by omega : fuel ≠ 0)
    cases hstop : around.stopping turn with
    | true => exact ⟨.stopped, s, readLoop_stopped hstop _ _ s, by simp, by simp [beforeStop]⟩
    | false =>
      exact ⟨.connectionLost, _, readLoop_ended hstop htail _ s, by simp,
        by simp [beforeStop, Surroundings.wait]⟩
  | cons f rest ih =>
    rw [List.length_cons] at hfuel
    obtain ⟨fuel, rfl⟩ := Nat.exists_eq_succ_of_ne_zero (by omega : fuel ≠ 0)
    cases hstop : around.stopping turn with
    | true =>
      exact ⟨.stopped, s, readLoop_stopped hstop _ _ s, by simp, by simp [beforeStop, hstop]⟩
    | false =>
      obtain ⟨pkt, hpkt, hok, hrest⟩ := hgoes hstop
      have hstream : streamOf (f :: rest) tail = f.bytes ++ streamOf rest tail := by
        simp [streamOf]
      have hshort : rest.length < fuel := by omega
      obtain ⟨exit, s', hrun, hexit, hdisp⟩ := ih hshort hrest
      refine ⟨exit, s', ?_, hexit, ?_⟩
      · rw [hstream, readLoop_packet hstop hpkt]
        rcases hturn : turnOf lower h around turn pkt s with ⟨_ | _, t⟩
        · rw [hturn] at hok
          cases hok
        · rw [hturn] at hrun
          exact hrun
      · rw [hdisp, dispatched_turnOf]
        simp [beforeStop, hstop, hpkt]

/-- The first frame that it does not outlive ends the loop with an exception. -/
theorem raises_of_not_goes {frames : List Frame} {turn fuel : ℕ} {s : Session σ} {tail : Bytes}
    (hfuel : frames.length < fuel) (hgoes : ¬ Goes lower h around turn s frames) :
    ∃ e s', readLoop lower h around ending fuel turn (streamOf frames tail) s =
      some (.raised e, s') := by
  induction frames generalizing turn fuel s with
  | nil => exact absurd trivial hgoes
  | cons f rest ih =>
    rw [List.length_cons] at hfuel
    obtain ⟨fuel, rfl⟩ := Nat.exists_eq_succ_of_ne_zero (by omega : fuel ≠ 0)
    have hstream : streamOf (f :: rest) tail = f.bytes ++ streamOf rest tail := by
      simp [streamOf]
    rw [hstream]
    cases hstop : around.stopping turn with
    | true =>
      exact absurd (fun hno => absurd (hstop.symm.trans hno) (by decide)) hgoes
    | false =>
      cases hpkt : f.packet with
      | none =>
        obtain ⟨e, he⟩ := readLoop_undecoded hstop hpkt fuel (streamOf rest tail) s
        exact ⟨e, _, he⟩
      | some pkt =>
        rw [readLoop_packet hstop hpkt]
        rcases hturn : turnOf lower h around turn pkt s with ⟨e | _, t⟩
        · exact ⟨e, t, rfl⟩
        · refine ih (by omega) ?_
          intro hrest
          refine hgoes fun _ => ⟨pkt, hpkt, ?_⟩
          rw [hturn]
          exact ⟨rfl, hrest⟩

/-- What one run of the loop does, it does whatever it is asked for. -/
theorem Passes.filterMap_eq {turn fuel : ℕ} {data : Bytes} {s : Session σ} {l l' : List Frame}
    (hp : Passes lower h around ending turn fuel data s l)
    (hp' : Passes lower h around ending turn fuel data s l') :
    l.filterMap Frame.packet = l'.filterMap Frame.packet := by
  obtain ⟨exit, t, hrun, _, hdisp⟩ := hp
  obtain ⟨exit', t', hrun', _, hdisp'⟩ := hp'
  have hsame : t = t' := by
    rw [hrun] at hrun'
    exact (Prod.mk.inj (Option.some.inj hrun')).2
  rw [hsame, hdisp'] at hdisp
  exact List.append_cancel_left hdisp.symm

/-- A loop that passes frames on has outlived every frame it came to. -/
theorem goes_of_passes {frames : List Frame} {turn fuel : ℕ} {s : Session σ} {tail : Bytes}
    {wanted : List Frame} (hfuel : frames.length < fuel)
    (hp : Passes lower h around ending turn fuel (streamOf frames tail) s wanted) :
    Goes lower h around turn s frames := by
  by_contra hnot
  obtain ⟨e, s', hraised⟩ := @raises_of_not_goes σ lower h around ending frames turn fuel s tail
    hfuel hnot
  obtain ⟨exit, t, hrun, hexit, _⟩ := hp
  rw [hraised] at hrun
  cases hrun
  exact hexit e rfl

theorem decodes_of_goes {frames : List Frame} {turn : ℕ} {s : Session σ}
    (hgoes : Goes lower h around turn s frames) :
    ∀ f ∈ beforeStop around.stopping turn frames, ∃ pkt, f.packet = some pkt := by
  induction frames generalizing turn s with
  | nil => simp [beforeStop]
  | cons f rest ih =>
    unfold beforeStop
    cases hstop : around.stopping turn with
    | true => simp
    | false =>
      obtain ⟨pkt, hpkt, _, hrest⟩ := hgoes hstop
      rw [if_neg (by decide)]
      exact List.forall_mem_cons.mpr ⟨⟨pkt, hpkt⟩, ih hrest⟩

/-- No handler raises. -/
def Handlers.Calm (h : Handlers σ) : Prop :=
  ∀ (c : Client) (s : σ) (notice : Option Notice), (h.notify c s notice).1 = .ok ()

theorem turnOf_calm (hcalm : Handlers.Calm h) {f : Frame} {pkt : InboundPacket}
    (hf : f.packet = some pkt) (turn : ℕ) (s : Session σ) :
    (turnOf lower h around turn pkt s).1 = .ok () := by
  obtain ⟨r, hr⟩ := dispatch_ok lower (around.wait turn s).client (Frame.decode_of_packet hf)
  unfold turnOf Session.dispatch
  simp only [hr]
  exact hcalm r.1 _ r.2

/-- Where no handler raises, decoding is all that a frame needs. -/
theorem goes_of_calm (hcalm : Handlers.Calm h) {frames : List Frame} {turn : ℕ} {s : Session σ}
    (hdec : ∀ f ∈ beforeStop around.stopping turn frames, ∃ pkt, f.packet = some pkt) :
    Goes lower h around turn s frames := by
  induction frames generalizing turn s with
  | nil => trivial
  | cons f rest ih =>
    intro hstop
    unfold beforeStop at hdec
    rw [hstop, if_neg (by decide)] at hdec
    obtain ⟨pkt, hpkt⟩ := hdec f List.mem_cons_self
    exact ⟨pkt, hpkt, turnOf_calm hcalm hpkt turn s,
      ih fun g hg => hdec g (List.mem_cons_of_mem f hg)⟩

end Loop

/-- Packets that all decode are lost by a filter that drops any of them. -/
theorem filter_packets_eq {frames : List Frame} {keep : Frame → Bool}
    (hdec : ∀ f ∈ frames, ∃ pkt, f.packet = some pkt) :
    (frames.filter keep).filterMap Frame.packet = frames.filterMap Frame.packet ↔
      ∀ f ∈ frames, keep f = true := by
  constructor
  · intro heq
    have hall : (frames.filterMap Frame.packet).length = frames.length := by
      rw [List.length_filterMap_eq_countP, List.countP_eq_length]
      intro f hf
      obtain ⟨pkt, hpkt⟩ := hdec f hf
      rw [hpkt]
      rfl
    have hkept := List.length_filterMap_le Frame.packet (frames.filter keep)
    rw [heq, hall] at hkept
    have hlen := List.length_filter_le keep frames
    exact List.length_filter_eq_length_iff.mp (by omega)
  · intro hkeep
    rw [List.filter_eq_self.mpr hkeep]

/-- With handlers that do not raise, the reader passes on the frames that fit their
schema, skips the others and ends with the stream or with stop(), exactly when there
is nothing to skip. -/
theorem reader_skips_nothing_iff {σ : Type} (lower : String → String) {h : Handlers σ}
    (hcalm : Handlers.Calm h) (around : Surroundings σ) {ending : Ending} (frames : List Frame)
    {tail : Bytes} (htail : Unfinished ending tail) (s : Session σ) :
    (∀ fuel, frames.length < fuel →
        Passes lower h around ending 0 fuel (streamOf frames tail) s
          ((beforeStop around.stopping 0 frames).filter Frame.fits)) ↔
      ∀ f ∈ beforeStop around.stopping 0 frames, f.fits = true := by
  constructor
  · intro hpass
    have hp := hpass (frames.length + 1) (by omega)
    have hgoes := goes_of_passes (by omega) hp
    have hp' : Passes lower h around ending 0 (frames.length + 1) (streamOf frames tail) s
        (beforeStop around.stopping 0 frames) := passes_of_goes htail (by omega) hgoes
    exact (filter_packets_eq (decodes_of_goes hgoes)).mp (hp.filterMap_eq hp')
  · intro hfits fuel hfuel
    have hdec : ∀ f ∈ beforeStop around.stopping 0 frames, ∃ pkt, f.packet = some pkt :=
      fun f hf => Frame.packet_of_fits (hfits f hf)
    rw [List.filter_eq_self.mpr hfits]
    exact passes_of_goes htail hfuel (goes_of_calm hcalm hdec)

def Surroundings.alone {σ : Type} : Surroundings σ := ⟨fun _ => false, fun _ c s => (c, s)⟩

def pingFrame : Frame := ⟨ping, [0, 0], by decide, by decide⟩

def groupFrame : Frame := ⟨65, [], by decide, by decide⟩

theorem pings_pass :
    Passes id {} Surroundings.alone .eof 0 3 (streamOf [pingFrame, pingFrame] []) ⟨{}, (), []⟩
      [pingFrame, pingFrame] :=
  (reader_skips_nothing_iff id (fun _ _ notice => by rcases notice with _ | _ | _ | _ <;> rfl)
    Surroundings.alone [pingFrame, pingFrame] (unfinished_nil .eof) ⟨{}, (), []⟩).mpr
      (by decide) 3 (by decide)

/-- A frame of an unsupported type ends the loop, and the frame behind it is not read. -/
theorem group_message_ends_reader :
    ¬ ∀ fuel, 2 < fuel →
      Passes id {} Surroundings.alone .eof 0 fuel (streamOf [groupFrame, pingFrame] [])
        ⟨{}, (), []⟩ ([groupFrame, pingFrame].filter Frame.fits) := by
  intro h
  obtain ⟨exit, s', hrun, hexit, _⟩ := h 3 (by decide)
  have hraised : readLoop id {} Surroundings.alone .eof 3 0 (streamOf [groupFrame, pingFrame] [])
      ⟨{}, (), []⟩ = some (.raised .key, ⟨{}, (), []⟩) := rfl
  rw [hraised] at hrun
  cases hrun
  exact hexit .key rfl

end AoMarket.ReadLoop
