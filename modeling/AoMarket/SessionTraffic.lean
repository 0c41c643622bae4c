import AoMarket.ChatSession
import AoMarket.NameLookup
import AoMarket.Reliance

/-!
What a session puts on the wire, whichever jobs run at the same time. Turns of different
jobs alternate between the packets of the stream and never inside one; each packet is one
that a job asks for, and the character it goes to is one the server has named: a tell by
name goes to an id that came back for that name, a reply to the sender of a tell.
-/

namespace AoMarket.SessionTraffic

open Coroutine Interleaving Reliance Framing Environment Packet Connection WireFormat ChatClient
  NameLookup Login Runner ChatSession

/-! What the server has said -/

/-- A reply to a lookup under the key gave this id. -/
def Named (lower : String → String) (s : Chat) (key : String) (charId : ℕ) : Prop :=
  charId ≠ notFound ∧ ∃ name, lower (latin1 name) = key ∧
    (⟨clientLookup, [.int charId, .str name]⟩ : InboundPacket) ∈ s.dispatched

/-- The name under which the bot knows the sender of a tell. -/
def KnownAs (s : Chat) (charId : ℕ) (player : String) : Prop :=
  player = toString charId ∨ ∃ name, latin1 name = player ∧
    (⟨clientName, [.int charId, .str name]⟩ : InboundPacket) ∈ s.dispatched

def Told (s : Chat) (charId : ℕ) (message : String) : Prop :=
  ∃ text blob, latin1 text = message ∧
    (⟨msgPrivate, [.int charId, .str text, blob]⟩ : InboundPacket) ∈ s.dispatched

/-- What a packet says about a character: online or not. -/
def said (charId : ℕ) (pkt : InboundPacket) : Option Bool :=
  match pkt.args with
  | [.int c, .int online, _] =>
    if pkt.type = buddyLogonoff ∧ c = charId then some (decide (online ≠ 0)) else none
  | _ => none

def lastSaid (dispatched : List InboundPacket) (charId : ℕ) : Option Bool :=
  (dispatched.filterMap (said charId)).getLast?

theorem lastSaid_append (dispatched : List InboundPacket) (pkt : InboundPacket) (charId : ℕ) :
    lastSaid (dispatched ++ [pkt]) charId = (said charId pkt).or (lastSaid dispatched charId) := by
  unfold lastSaid
  rw [List.filterMap_append, List.getLast?_append]
  cases hsaid : said charId pkt with
  | none => simp [hsaid]
  | some b => simp [hsaid]

variable {ι : Type} {net : Net} {jobs : ι → Job} {before : Bytes}

/-- The packets that the jobs ask for by a state of the session. -/
inductive Asked (net : Net) (jobs : ι → Job) (s : Chat) : OutPacket → Prop
  | tell {i : ι} {charId : ℕ} {message : String} (h : jobs i = .tell charId message) :
      Asked net jobs s (tellTo charId message)
  | tellByName {i : ι} {charId : ℕ} {name message : String} (h : jobs i = .tellByName name message)
      (hnamed : Named net.lower s (net.lower name) charId) : Asked net jobs s (tellTo charId message)
  | reply {i : ι} {turns tick charId : ℕ} {player message reply : String}
      (h : jobs i = .read turns) (htold : Told s charId message)
      (hknown : KnownAs s charId player) (hreply : net.reply tick player message = .ok reply) :
      Asked net jobs s (tellTo charId reply)
  | announce {i : ι} {gid : ℕ} {message : String} (h : jobs i = .announce message)
      (hself : s.selected.map CharacterInfo.id = some gid) : Asked net jobs s (privgroupTo gid message)
  | buddy {i : ι} {charId : ℕ} {name : String} (h : jobs i = .isOnline name)
      (hnamed : Named net.lower s (net.lower name) charId)
      (hother : s.selected.map CharacterInfo.id ≠ some charId) :
      Asked net jobs s (buddyRequest charId)
  | lookup {i : ι} {name : String}
      (h : jobs i = .isOnline name ∨ ∃ message, jobs i = .tellByName name message) :
      Asked net jobs s (lookupRequest name)
  | keepalive {i : ι} {turns : ℕ} (h : jobs i = .keepalive turns) : Asked net jobs s keepalive

theorem wellTyped_of_asked {s : Chat} {p : OutPacket} (h : Asked net jobs s p) : p.WellTyped := by
  cases h with
  | tell | tellByName | reply => exact ⟨[.int, .str, .str], rfl, by simp [tellTo, Suits]⟩
  | announce => exact ⟨[.int, .str, .str], rfl, by simp [privgroupTo, Suits]⟩
  | buddy => exact ⟨[.int, .str], rfl, by simp [buddyRequest, Suits]⟩
  | lookup => exact ⟨[.str], rfl, by simp [lookupRequest, Suits]⟩
  | keepalive => exact ⟨[.str], rfl, by simp [keepalive, Suits]⟩

/-! What everybody keeps -/

/-- What was dispatched stays so, and the character stays selected. -/
structure Extends (s t : Chat) : Prop where
  dispatched : ∀ pkt ∈ s.dispatched, pkt ∈ t.dispatched
  selected : t.selected = s.selected

theorem Extends.refl (s : Chat) : Extends s s := ⟨fun _ h => h, rfl⟩

theorem Extends.trans {s t u : Chat} (h : Extends s t) (h' : Extends t u) : Extends s u :=
  ⟨fun pkt hpkt => h'.dispatched pkt (h.dispatched pkt hpkt), h'.selected.trans h.selected⟩

theorem Named.mono {lower : String → String} {s t : Chat} {key : String} {charId : ℕ}
    (h : Named lower s key charId) (hext : Extends s t) : Named lower t key charId := by
  obtain ⟨hid, name, hname, hmem⟩ := h
  exact ⟨hid, name, hname, hext.dispatched _ hmem⟩

theorem KnownAs.mono {s t : Chat} {charId : ℕ} {player : String} (h : KnownAs s charId player)
    (hext : Extends s t) : KnownAs t charId player := by
  rcases h with h | ⟨name, hname, hmem⟩
  · exact Or.inl h
  · exact Or.inr ⟨name, hname, hext.dispatched _ hmem⟩

theorem Told.mono {s t : Chat} {charId : ℕ} {message : String} (h : Told s charId message)
    (hext : Extends s t) : Told t charId message := by
  obtain ⟨text, blob, htext, hmem⟩ := h
  exact ⟨text, blob, htext, hext.dispatched _ hmem⟩

theorem Asked.mono {s t : Chat} {p : OutPacket} (h : Asked net jobs s p) (hext : Extends s t) :
    Asked net jobs t p := by
  cases h with
  | tell h => exact .tell h
  | tellByName h hnamed => exact .tellByName h (hnamed.mono hext)
  | reply h htold hknown hreply => exact .reply h (htold.mono hext) (hknown.mono hext) hreply
  | announce h hself => exact .announce h (by rw [hext.selected]; exact hself)
  | buddy h hnamed hother =>
    exact .buddy h (hnamed.mono hext) (by rw [hext.selected]; exact hother)
  | lookup h => exact .lookup h
  | keepalive h => exact .keepalive h

/-- The stream holds whole packets, each of them asked for. -/
def Whole (net : Net) (jobs : ι → Job) (before : Bytes) (s : Chat) : Prop :=
  ∃ packets frames,
    List.Forall₂ (fun p frame => encodePacket p.type p.args = .ok frame) packets frames ∧
      s.written = before ++ frames.flatten ∧ ∀ p ∈ packets, Asked net jobs s p

/-- The dictionaries say what the server has said, and waiters wait for futures that exist. -/
structure Good (net : Net) (jobs : ι → Job) (before : Bytes) (s : Chat) : Prop where
  cached : ∀ key charId, s.client.nameToId key = some charId → Named net.lower s key charId
  known : ∀ charId player, s.client.idToName charId = some player → KnownAs s charId player
  online : ∀ charId, s.client.buddyOnline charId = lastSaid s.dispatched charId
  waiters : ∀ key f, s.client.lookupWaiters key = some f → f < s.client.created
  whole : Whole net jobs before s

/-- The future belongs to a lookup of the key. -/
structure Filed (net : Net) (s : Chat) (key : String) (f : ℕ) : Prop where
  created : f < s.client.created
  alone : ∀ key', s.client.lookupWaiters key' = some f → key' = key
  named : ∀ charId, s.client.futures f = .done (some charId) → Named net.lower s key charId

/-- What every turn leaves as it found it. -/
structure Onward (net : Net) (s t : Chat) : Prop where
  extends' : Extends s t
  filed : ∀ key f, Filed net s key f → Filed net t key f

theorem Onward.refl (s : Chat) : Onward net s s := ⟨Extends.refl s, fun _ _ hf => hf⟩

theorem Onward.trans {s t u : Chat} (h : Onward net s t) (h' : Onward net t u) : Onward net s u :=
  ⟨h.extends'.trans h'.extends', fun key f hf => h'.filed key f (h.filed key f hf)⟩

/-- What every turn keeps, and all rely on. -/
abbrev Kept (net : Net) (jobs : ι → Job) (before : Bytes) : Chat → Chat → Prop :=
  Keeps (Good net jobs before) (Onward net)

/-! One turn -/

/-- A turn that leaves the client alone. -/
theorem keeps_quiet {s t : Chat} (hclient : t.client = s.client)
    (hdispatched : t.dispatched = s.dispatched) (hselected : t.selected = s.selected)
    (hwhole : Whole net jobs before s → Whole net jobs before t) : Kept net jobs before s t := by
  intro hs
  have hext : Extends s t := ⟨fun pkt h => by rw [hdispatched]; exact h, hselected⟩
  refine ⟨?_, hext, fun key f hf => ?_⟩
  · exact {
      cached := fun key charId h => (hs.cached key charId (by rw [← hclient]; exact h)).mono hext
      known := fun charId player h => (hs.known charId player (by rw [← hclient]; exact h)).mono hext
      online := by rw [hclient, hdispatched]; exact hs.online
      waiters := by rw [hclient]; exact hs.waiters
      whole := hwhole hs.whole }
  · exact {
      created := by rw [hclient]; exact hf.created
      alone := by rw [hclient]; exact hf.alone
      named := fun charId h => (hf.named charId (by rw [← hclient]; exact h)).mono hext }

theorem Whole.mono {s t : Chat} (h : Whole net jobs before s) (hext : Extends s t)
    (hwritten : t.written = s.written) : Whole net jobs before t := by
  obtain ⟨packets, frames, hframes, hall, hasked⟩ := h
  exact ⟨packets, frames, hframes, hwritten.trans hall, fun p hp => (hasked p hp).mono hext⟩

/-- One more packet. -/
theorem Whole.append {s t : Chat} {p : OutPacket} {frame : Bytes}
    (h : Whole net jobs before s) (hext : Extends s t) (hasked : Asked net jobs t p)
    (hframe : encodePacket p.type p.args = .ok frame) (hwritten : t.written = s.written ++ frame) :
    Whole net jobs before t := by
  obtain ⟨packets, frames, hframes, hall, hold⟩ := h
  refine ⟨packets ++ [p], frames ++ [frame], ?_, ?_, ?_⟩
  · exact List.rel_append hframes (List.Forall₂.cons hframe List.Forall₂.nil)
  · rw [hwritten, hall, List.flatten_append, List.flatten_singleton, List.append_assoc]
  · intro q hq
    rcases List.mem_append.mp hq with hq | hq
    · exact (hold q hq).mono hext
    · rw [List.mem_singleton.mp hq]
      exact hasked

theorem sendPacket_cases (drained : Except PyErr Unit) (p : OutPacket) (written : Bytes) :
    (∃ e, encodePacket p.type p.args = .error e ∧
      Connection.sendPacket drained p.type p.args written = (.error e, written)) ∨
    ∃ frame, encodePacket p.type p.args = .ok frame ∧
      Connection.sendPacket drained p.type p.args written = (drained, written ++ frame) := by
  unfold Connection.sendPacket
  cases henc : encodePacket p.type p.args with
  | error e => exact Or.inl ⟨e, rfl, rfl⟩
  | ok frame => exact Or.inr ⟨frame, rfl, rfl⟩

/-- A turn that moves the client's waiters and futures only. -/
theorem keeps_waiters {s t : Chat} (hnames : t.client.nameToId = s.client.nameToId)
    (hknown : t.client.idToName = s.client.idToName)
    (honline : t.client.buddyOnline = s.client.buddyOnline)
    (hdispatched : t.dispatched = s.dispatched) (hselected : t.selected = s.selected)
    (hcreated : s.client.created ≤ t.client.created)
    (hwaiters : ∀ key f, t.client.lookupWaiters key = some f →
      s.client.lookupWaiters key = some f ∨ s.client.created ≤ f ∧ f < t.client.created)
    (hfutures : ∀ f charId, f < s.client.created → t.client.futures f = .done (some charId) →
      s.client.futures f = .done (some charId))
    (hwhole : Extends s t → Whole net jobs before s → Whole net jobs before t) :
    Kept net jobs before s t := by
  intro hs
  have hext : Extends s t := ⟨fun pkt h => by rw [hdispatched]; exact h, hselected⟩
  refine ⟨?_, hext, fun key f hf => ?_⟩
  · refine {
      cached := fun key charId h => (hs.cached key charId (by rw [← hnames]; exact h)).mono hext
      known := fun charId player h => (hs.known charId player (by rw [← hknown]; exact h)).mono hext
      online := by rw [honline, hdispatched]; exact hs.online
      waiters := fun key f h => ?_
      whole := hwhole hext hs.whole }
    rcases hwaiters key f h with hold | hnew
    · exact Nat.lt_of_lt_of_le (hs.waiters key f hold) hcreated
    · exact hnew.2
  · refine {
      created := Nat.lt_of_lt_of_le hf.created hcreated
      alone := fun key' h => ?_
      named := fun charId h => (hf.named charId (hfutures f charId hf.created h)).mono hext }
    rcases hwaiters key' f h with hold | hnew
    · exact hf.alone key' hold
    · have := hf.created
      omega

theorem leave_waiters {c : Client} {key key' : String} {f : ℕ}
    (h : (leave c key).lookupWaiters key' = some f) : c.lookupWaiters key' = some f := by
  unfold leave at h
  by_cases heq : key' = key
  · subst heq
    simp at h
  · simpa [Function.update_of_ne heq] using h

/-- The waiter a lookup files is new. -/
theorem begin_waiters {lower : String → String} {c c' : Client} {name : String} {f : ℕ}
    (h : c.beginLookup lower name = .inr (f, c')) :
    f = c.created ∧ c'.created = c.created + 1 ∧ c'.nameToId = c.nameToId ∧
      c'.idToName = c.idToName ∧ c'.buddyOnline = c.buddyOnline ∧
      c'.lookupWaiters = Function.update c.lookupWaiters (lower name) (some c.created) ∧
      c'.futures = Function.update c.futures c.created .pending := by
  unfold Client.beginLookup at h
  cases hcached : c.nameToId (lower name) with
  | some charId =>
    simp only [hcached] at h
    cases h
  | none =>
    simp only [hcached] at h
    cases h
    exact ⟨rfl, rfl, rfl, rfl, rfl, rfl, rfl⟩

/-! A packet that is dispatched -/

@[simp] theorem remember_online (c : Client) (key : String) (r : Option ℕ) :
    (c.remember key r).buddyOnline = c.buddyOnline := by cases r <;> rfl

@[simp] theorem remember_known (c : Client) (key : String) (r : Option ℕ) :
    (c.remember key r).idToName = c.idToName := by cases r <;> rfl

/-- Resolving a waiter touches the futures alone. -/
theorem resolve_rest (c : Client) (key : String) (r : Option ℕ) :
    (c.resolve key r).buddyOnline = c.buddyOnline ∧ (c.resolve key r).idToName = c.idToName ∧
      (c.resolve key r).nameToId = c.nameToId := by
  unfold Client.resolve
  split
  · split <;> exact ⟨rfl, rfl, rfl⟩
  · exact ⟨rfl, rfl, rfl⟩

theorem done_of_resolve {c : Client} {key : String} {r r' : Option ℕ} {f : ℕ}
    (h : (c.resolve key r).futures f = .done r') :
    c.futures f = .done r' ∨ c.lookupWaiters key = some f ∧ r' = r := by
  unfold Client.resolve at h
  cases hkey : c.lookupWaiters key with
  | none =>
    rw [hkey] at h
    exact Or.inl h
  | some g =>
    rw [hkey] at h
    by_cases hpending : c.futures g = .pending
    · simp only [if_pos hpending] at h
      by_cases hfg : f = g
      · subst hfg
        rw [Function.update_self] at h
        cases h
        exact Or.inr ⟨rfl, rfl⟩
      · rw [Function.update_of_ne hfg] at h
        exact Or.inl h
    · simp only [if_neg hpending] at h
      exact Or.inl h

/-- What a packet does to the client, and whom it makes the bot hear. -/
inductive Dispatched (lower : String → String) (c : Client) (pkt : InboundPacket) :
    Client → Option Notice → Prop
  | tell {charId : ℕ} {text : Bytes} {blob : InArg}
      (h : pkt = ⟨msgPrivate, [.int charId, .str text, blob]⟩) :
      Dispatched lower c pkt c (some (.tell charId (latin1 text)))
  | buddy {charId online : ℕ} {blob : InArg}
      (h : pkt = ⟨buddyLogonoff, [.int charId, .int online, blob]⟩) :
      Dispatched lower c pkt
        { c with buddyOnline := Function.update c.buddyOnline charId (some (online ≠ 0)) }
        (some (.buddy charId (online ≠ 0)))
  | name {charId : ℕ} {name : Bytes} (h : pkt = ⟨clientName, [.int charId, .str name]⟩) :
      Dispatched lower c pkt
        { c with idToName := Function.update c.idToName charId (some (latin1 name)) } none
  | lookup {charId : ℕ} {name : Bytes} (h : pkt = ⟨clientLookup, [.int charId, .str name]⟩) :
      Dispatched lower c pkt (c.receiveLookup lower charId name) none
  | nothing {notice : Option Notice} (hno : ∀ charId message, notice ≠ some (.tell charId message))
      (htype : pkt.type ≠ buddyLogonoff) : Dispatched lower c pkt c notice

/-- What a packet can do to the client, packet by packet. -/
theorem dispatch_cases {lower : String → String} {c c' : Client} {pkt : InboundPacket}
    {notice : Option Notice} (h : dispatch lower c pkt = .ok (c', notice)) :
    Dispatched lower c pkt c' notice := by
  obtain ⟨type, args⟩ := pkt
  unfold dispatch at h
  by_cases htell : type = msgPrivate
  · simp only [if_pos htell] at h
    split at h
    · next charId text blob =>
      cases h
      exact .tell (by rw [htell])
    · cases h
  simp only [if_neg htell] at h
  by_cases hgroup : type = privgrpMessage
  · simp only [if_pos hgroup] at h
    split at h
    · cases h
      exact .nothing (fun _ _ heq => by cases heq) (by rw [hgroup]; exact (by decide : privgrpMessage ≠ buddyLogonoff))
    · cases h
  simp only [if_neg hgroup] at h
  by_cases hbuddy : type = buddyLogonoff
  · simp only [if_pos hbuddy] at h
    split at h
    · cases h
      exact .buddy (by rw [hbuddy])
    · cases h
  simp only [if_neg hbuddy] at h
  by_cases hname : type = clientName
  · simp only [if_pos hname] at h
    split at h
    · next charId name =>
      by_cases hid : charId = notFound
      · rw [if_pos hid] at h
        cases h
        exact .nothing (fun _ _ heq => by cases heq) hbuddy
      · rw [if_neg hid] at h
        cases h
        exact .name (by rw [hname])
    · cases h
  simp only [if_neg hname] at h
  by_cases hlookup : type = clientLookup
  · simp only [if_pos hlookup] at h
    split at h
    · cases h
      exact .lookup (by rw [hlookup])
    · cases h
  · simp only [if_neg hlookup] at h
    cases h
    exact .nothing (fun _ _ heq => by cases heq) hbuddy

theorem said_of_type {pkt : InboundPacket} (h : pkt.type ≠ buddyLogonoff) (charId : ℕ) :
    said charId pkt = none := by
  unfold said
  split
  · rw [if_neg fun hand => h hand.1]
  · rfl

/-- A packet that says nothing about logons leaves what was last said. -/
theorem lastSaid_quiet {pkt : InboundPacket} (h : pkt.type ≠ buddyLogonoff)
    (dispatched : List InboundPacket) (charId : ℕ) :
    lastSaid (dispatched ++ [pkt]) charId = lastSaid dispatched charId := by
  rw [lastSaid_append, said_of_type h]
  rfl

/-- The last LOGONOFF of a character says whether it is online. -/
theorem online_of_dispatched {lower : String → String} {c c' : Client} {pkt : InboundPacket}
    {notice : Option Notice} (h : Dispatched lower c pkt c' notice)
    {dispatched : List InboundPacket}
    (hc : ∀ charId, c.buddyOnline charId = lastSaid dispatched charId) (charId : ℕ) :
    c'.buddyOnline charId = lastSaid (dispatched ++ [pkt]) charId := by
  cases h with
  | tell h =>
    rw [lastSaid_quiet (by rw [h]; exact (by decide : msgPrivate ≠ buddyLogonoff))]
    exact hc charId
  | name h =>
    rw [lastSaid_quiet (by rw [h]; exact (by decide : clientName ≠ buddyLogonoff))]
    exact hc charId
  | nothing _ htype =>
    rw [lastSaid_quiet htype]
    exact hc charId
  | @lookup id name h =>
    rw [lastSaid_quiet (by rw [h]; exact (by decide : clientLookup ≠ buddyLogonoff))]
    unfold Client.receiveLookup
    rw [(resolve_rest _ _ _).1, remember_online]
    exact hc charId
  | @buddy id online blob h =>
    rw [lastSaid_append, h]
    unfold said
    by_cases hid : id = charId
    · subst hid
      simp
    · simp only [hid, and_false, if_false, Option.none_or,
        Function.update_of_ne (Ne.symm hid)]
      exact hc charId

theorem waiters_of_dispatched {lower : String → String} {c c' : Client} {pkt : InboundPacket}
    {notice : Option Notice} (h : Dispatched lower c pkt c' notice) :
    c'.lookupWaiters = c.lookupWaiters ∧ c'.created = c.created := by
  cases h with
  | lookup => exact ⟨receiveLookup_waiters _ _ _ _, receiveLookup_created _ _ _ _⟩
  | _ => exact ⟨rfl, rfl⟩

/-- Names are learnt from CLIENT_NAME packets only. -/
theorem known_of_dispatched {lower : String → String} {c c' : Client} {pkt : InboundPacket}
    {notice : Option Notice} (h : Dispatched lower c pkt c' notice) {charId : ℕ} {player : String}
    (hplayer : c'.idToName charId = some player) :
    c.idToName charId = some player ∨
      ∃ name, latin1 name = player ∧ pkt = ⟨clientName, [.int charId, .str name]⟩ := by
  cases h with
  | tell | nothing | buddy => exact Or.inl hplayer
  | @name id name heq =>
    by_cases hsame : charId = id
    · subst hsame
      simp only [Function.update_self, Option.some.injEq] at hplayer
      exact Or.inr ⟨name, hplayer, heq⟩
    · simp only [Function.update_of_ne hsame] at hplayer
      exact Or.inl hplayer
  | @lookup id name heq =>
    unfold Client.receiveLookup at hplayer
    rw [(resolve_rest _ _ _).2.1, remember_known] at hplayer
    exact Or.inl hplayer

/-- Ids are cached from replies to lookups only. -/
theorem cached_of_dispatched {lower : String → String} {c c' : Client} {pkt : InboundPacket}
    {notice : Option Notice} (h : Dispatched lower c pkt c' notice) {key : String} {charId : ℕ}
    (hkey : c'.nameToId key = some charId) :
    c.nameToId key = some charId ∨ charId ≠ notFound ∧
      ∃ name, lower (latin1 name) = key ∧ pkt = ⟨clientLookup, [.int charId, .str name]⟩ := by
  cases h with
  | tell | nothing | buddy | name => exact Or.inl hkey
  | @lookup id name heq =>
    unfold Client.receiveLookup at hkey
    rw [(resolve_rest _ _ _).2.2] at hkey
    by_cases hid : id = notFound
    · rw [if_pos hid] at hkey
      exact Or.inl hkey
    rw [if_neg hid] at hkey
    by_cases hsame : key = lower (latin1 name)
    · subst hsame
      simp only [Client.remember, Function.update_self, Option.some.injEq] at hkey
      subst hkey
      exact Or.inr ⟨hid, name, rfl, heq⟩
    · simp only [Client.remember, Function.update_of_ne hsame] at hkey
      exact Or.inl hkey

/-- A future gets an id from a reply under its own key only. -/
theorem future_of_dispatched {lower : String → String} {c c' : Client} {pkt : InboundPacket}
    {notice : Option Notice} (h : Dispatched lower c pkt c' notice) {f charId : ℕ}
    (hdone : c'.futures f = .done (some charId)) :
    c.futures f = .done (some charId) ∨ charId ≠ notFound ∧
      ∃ name, c.lookupWaiters (lower (latin1 name)) = some f ∧
        pkt = ⟨clientLookup, [.int charId, .str name]⟩ := by
  cases h with
  | tell | nothing | buddy | name => exact Or.inl hdone
  | @lookup id name heq =>
    unfold Client.receiveLookup at hdone
    rcases done_of_resolve hdone with hold | ⟨hwaiter, hresult⟩
    · rw [remember_futures] at hold
      exact Or.inl hold
    · rw [remember_waiters] at hwaiter
      by_cases hid : id = notFound
      · rw [if_pos hid] at hresult
        cases hresult
      · rw [if_neg hid] at hresult
        cases hresult
        exact Or.inr ⟨hid, name, hwaiter, heq⟩

/-- A turn that dispatches a packet. -/
theorem keeps_dispatched {s t : Chat} {pkt : InboundPacket} {notice : Option Notice}
    (h : Dispatched net.lower s.client pkt t.client notice)
    (hdispatched : t.dispatched = s.dispatched ++ [pkt]) (hselected : t.selected = s.selected)
    (hwritten : t.written = s.written) : Kept net jobs before s t := by
  intro hs
  have hext : Extends s t :=
    ⟨fun q hq => by rw [hdispatched]; exact List.mem_append_left _ hq, hselected⟩
  have hpkt : pkt ∈ t.dispatched := by rw [hdispatched]; simp
  obtain ⟨hwaiters, hcreated⟩ := waiters_of_dispatched h
  refine ⟨⟨fun key charId hkey => ?_, fun charId player hplayer => ?_, ?_, ?_,
    hs.whole.mono hext hwritten⟩, hext, fun key f hf => ⟨?_, ?_, fun charId hdone => ?_⟩⟩
  · rcases cached_of_dispatched h hkey with hold | ⟨hid, name, hname, rfl⟩
    · exact (hs.cached key charId hold).mono hext
    · exact ⟨hid, name, hname, hpkt⟩
  · rcases known_of_dispatched h hplayer with hold | ⟨name, hname, rfl⟩
    · exact (hs.known charId player hold).mono hext
    · exact Or.inr ⟨name, hname, hpkt⟩
  · rw [hdispatched]
    exact online_of_dispatched h hs.online
  · rw [hwaiters, hcreated]
    exact hs.waiters
  · rw [hcreated]
    exact hf.created
  · rw [hwaiters]
    exact hf.alone
  · rcases future_of_dispatched h hdone with hold | ⟨hid, name, hwaiter, rfl⟩
    · exact (hf.named charId hold).mono hext
    · exact ⟨hid, name, hf.alone _ hwaiter, hpkt⟩

/-! The jobs -/

/-- The coroutine leaves the session good, and what it returns satisfies `F`. -/
abbrev Performs {α : Type} (net : Net) (jobs : ι → Job) (before : Bytes) (p : ChatM α) (s : Chat)
    (F : α → Chat → Prop) : Prop :=
  Does (Good net jobs before) (Onward net) p s F fun _ _ => True

theorem Performs.mono {α : Type} {s : Chat} {F F' : α → Chat → Prop} {p : ChatM α}
    (hp : Performs net jobs before p s F) (hF : ∀ a t, F a t → F' a t) :
    Performs net jobs before p s F' :=
  Does.mono hp hF fun _ _ h => h

theorem performs_act {α : Type} {s : Chat} {F : α → Chat → Prop} (hs : Good net jobs before s)
    {call : ChatCall} {f : Chat → Except PyErr α × Chat}
    (hf : ∀ t, Good net jobs before t → Extends s t →
      (∀ key n, Filed net s key n → Filed net t key n) →
        Kept net jobs before t (f t).2 ∧ ∀ a, (f t).1 = .ok a → F a (f t).2) :
    Performs net jobs before (Coro.act call f) s F := by
  refine Does.act hs fun t ht hmoved => ?_
  obtain ⟨hkept, hF⟩ := hf t ht hmoved.extends' hmoved.filed
  exact ⟨hkept, hF, fun _ _ => trivial⟩

theorem keeps_tick (s : Chat) : Kept net jobs before s { s with tick := s.tick + 1 } :=
  keeps_quiet rfl rfl rfl fun h => h.mono ⟨fun _ hpkt => hpkt, rfl⟩ rfl

section Methods
variable {s : Chat}

theorem performs_look {α : Type} (hs : Good net jobs before s) (f : Chat → α) :
    Performs net jobs before (look f) s fun a t =>
      Extends s t ∧ ∃ u, Good net jobs before u ∧ a = f u ∧ t = { u with tick := u.tick + 1 } := by
  refine performs_act hs fun t hgood hext _ => ⟨keeps_tick t, ?_⟩
  intro a ha
  cases ha
  exact ⟨hext.trans ⟨fun _ h => h, rfl⟩, t, hgood, rfl, rfl⟩

theorem performs_sendPacket (hs : Good net jobs before s) {p : OutPacket}
    (hasked : Asked net jobs s p) :
    Performs net jobs before (sendPacket net p) s fun _ t => Extends s t := by
  refine performs_act hs fun t _ hext _ => ?_
  rcases sendPacket_cases (net.drained t.tick) p t.written with ⟨e, _, hsend⟩ | ⟨frame, henc, hsend⟩
  · simp only [hsend]
    exact ⟨keeps_tick t, fun _ _ => hext.trans ⟨fun _ h => h, rfl⟩⟩
  · simp only [hsend]
    refine ⟨keeps_quiet rfl rfl rfl fun h => ?_, fun _ _ => hext.trans ⟨fun _ h => h, rfl⟩⟩
    have hstep : Extends t { t with written := t.written ++ frame, tick := t.tick + 1 } :=
      ⟨fun _ hpkt => hpkt, rfl⟩
    exact h.append hstep (hasked.mono (hext.trans hstep)) henc rfl

theorem performs_addBuddy (hs : Good net jobs before s) {i : ι} {name : String} {charId : ℕ}
    (hjob : jobs i = .isOnline name) (hnamed : Named net.lower s (net.lower name) charId) :
    Performs net jobs before (addBuddy net charId) s fun _ t => Extends s t := by
  refine Does.bind (performs_look hs _) fun own t hgood h => ?_
  obtain ⟨hext, u, _, rfl, rfl⟩ := h
  by_cases hself : u.selected.map CharacterInfo.id = some charId
  · rw [if_pos hself]
    exact Does.pure hgood hext
  · rw [if_neg hself]
    refine (performs_sendPacket hgood ?_).mono fun _ _ h => hext.trans h
    exact .buddy hjob (hnamed.mono hext) hself

/-- A new waiter, and the request for it. -/
theorem keeps_sendRequest {t : Chat} (ht : Good net jobs before t) {p : OutPacket}
    (hasked : Asked net jobs t p) {name : String} {f : ℕ} {client : Client}
    (hbegin : t.client.beginLookup net.lower name = .inr (f, client)) :
    Kept net jobs before t (sendRequest net p (net.lower name) f client t).2 ∧
      ∀ r, (sendRequest net p (net.lower name) f client t).1 = .ok r →
        ∃ drained, r = .inr (f, drained) ∧
          Filed net (sendRequest net p (net.lower name) f client t).2 (net.lower name) f := by
  obtain ⟨rfl, hcreated, hnames, hknown, honline, hwaiters, hfutures⟩ := begin_waiters hbegin
  have hgrows : t.client.created ≤ client.created := by omega
  have hnew : ∀ key f, client.lookupWaiters key = some f →
      t.client.lookupWaiters key = some f ∨ t.client.created ≤ f ∧ f < client.created := by
    intro key f hf
    rw [hwaiters] at hf
    by_cases hkey : key = net.lower name
    · subst hkey
      rw [Function.update_self] at hf
      cases hf
      exact Or.inr ⟨le_refl _, by omega⟩
    · rw [Function.update_of_ne hkey] at hf
      exact Or.inl hf
  have hdone : ∀ f charId, f < t.client.created → client.futures f = .done (some charId) →
      t.client.futures f = .done (some charId) := by
    intro f charId hlt hf
    rwa [hfutures, Function.update_of_ne (by omega)] at hf
  unfold sendRequest
  rcases sendPacket_cases (.ok ()) p t.written with
    ⟨e, _, hsend⟩ | ⟨frame, henc, hsend⟩
  · simp only [hsend]
    refine ⟨?_, fun r hr => by cases hr⟩
    exact keeps_waiters hnames hknown honline rfl rfl hgrows
      (fun key f hf => hnew key f (leave_waiters hf)) hdone fun hext h => h.mono hext rfl
  · simp only [hsend]
    refine ⟨?_, fun r hr => ⟨net.drained t.tick, (Except.ok.inj hr).symm, ?_⟩⟩
    · exact keeps_waiters hnames hknown honline rfl rfl hgrows hnew hdone
        fun hstep h => h.append hstep (hasked.mono hstep) henc rfl
    · refine ⟨Nat.lt_of_lt_of_eq (Nat.lt_succ_self _) hcreated.symm, fun key' hf => ?_,
        fun charId hf => ?_⟩
      · by_contra hkey
        dsimp only at hf
        rw [hwaiters, Function.update_of_ne hkey] at hf
        have := ht.waiters _ _ hf
        omega
      · dsimp only at hf
        rw [hfutures, Function.update_self] at hf
        cases hf

/-- The future a lookup files belongs to its key. -/
theorem performs_beginLookup (hs : Good net jobs before s) {i : ι} {name : String}
    (hjob : jobs i = .isOnline name ∨ ∃ message, jobs i = .tellByName name message) :
    Performs net jobs before (beginLookup net name) s fun r t =>
      match r with
      | .inl charId => Named net.lower t (net.lower name) charId
      | .inr (f, _) => Filed net t (net.lower name) f := by
  refine performs_act hs fun t hgood hext _ => ?_
  cases hbegin : t.client.beginLookup net.lower name with
  | inl charId =>
    refine ⟨keeps_tick t, fun r hr => ?_⟩
    cases hr
    have hcached : t.client.nameToId (net.lower name) = some charId := by
      unfold Client.beginLookup at hbegin
      cases hkey : t.client.nameToId (net.lower name) with
      | none =>
        simp only [hkey] at hbegin
        cases hbegin
      | some id =>
        simp only [hkey] at hbegin
        cases hbegin
        rfl
    exact (hgood.cached _ _ hcached).mono ⟨fun _ h => h, rfl⟩
  | inr r =>
    obtain ⟨f, client⟩ := r
    obtain ⟨hkeeps, hfiled⟩ := keeps_sendRequest hgood (.lookup hjob) hbegin
    refine ⟨hkeeps, fun r hr => ?_⟩
    obtain ⟨drained, rfl, hf⟩ := hfiled r hr
    exact hf

/-- The id that a lookup returns was given in a reply under its key. -/
theorem performs_waitReply (hs : Good net jobs before s) {key : String} {f : ℕ}
    (hfiled : Filed net s key f) (drained : Except PyErr Unit) :
    Performs net jobs before (waitReply net key f drained) s fun r t =>
      ∀ charId, r = some charId → Named net.lower t key charId := by
  refine performs_act hs fun t _ hext hmove => ?_
  have hf := hmove key f hfiled
  have hleave : Kept net jobs before t
      { t with client := leave t.client key, tick := t.tick + 1 } :=
    keeps_waiters rfl rfl rfl rfl rfl (le_refl _) (fun _ _ h => Or.inl (leave_waiters h))
      (fun _ _ _ h => h) fun hext h => h.mono hext rfl
  cases drained with
  | error e => exact ⟨hleave, fun r hr => by cases hr⟩
  | ok u =>
    dsimp only
    cases hfuture : t.client.futures f with
    | done r =>
      refine ⟨hleave, fun r' hr' charId hid => ?_⟩
      cases hr'
      by_cases hexpired : net.expired t.tick = true
      · rw [if_pos hexpired] at hid
        cases hid
      · rw [if_neg hexpired] at hid
        rw [hid] at hfuture
        exact (hf.named charId hfuture).mono ⟨fun _ h => h, rfl⟩
    | pending | cancelled =>
      refine ⟨?_, fun r hr charId hid => ?_⟩
      · refine keeps_waiters rfl rfl rfl rfl rfl (le_refl _)
          (fun _ _ h => Or.inl (leave_waiters h)) (fun g charId _ h => ?_) fun hext h => h.mono hext rfl
        by_cases hg : g = f
        · subst hg
          simp at h
        · simpa [leave, Function.update_of_ne hg] using h
      · cases hr
        cases hid

/-- The id that lookup_user returns, from the cache or a reply, was given for the name. -/
theorem performs_lookupUser (hs : Good net jobs before s) {i : ι} {name : String}
    (hjob : jobs i = .isOnline name ∨ ∃ message, jobs i = .tellByName name message) :
    Performs net jobs before (lookupUser net name) s fun r t =>
      ∀ charId, r = some charId → Named net.lower t (net.lower name) charId := by
  refine Does.bind (performs_beginLookup hs hjob) fun r t hgood hr => ?_
  cases r with
  | inl charId =>
    refine Does.pure hgood fun charId' hid => ?_
    cases hid
    exact hr
  | inr filed => exact performs_waitReply hgood hr filed.2

theorem performs_sendTellByName (hs : Good net jobs before s) {i : ι} {name message : String}
    (hjob : jobs i = .tellByName name message) :
    Performs net jobs before (sendTellByName net name message) s fun _ _ => True := by
  refine Does.bind (performs_lookupUser hs (Or.inr ⟨message, hjob⟩)) fun r t hgood hr => ?_
  cases r with
  | none => exact Does.pure hgood trivial
  | some charId =>
    exact (performs_sendPacket hgood (.tellByName hjob (hr charId rfl))).mono fun _ _ _ => trivial

/-- Who is reported online was looked up under the name, and was last said to be online. -/
theorem performs_isOnlineByName (hs : Good net jobs before s) {i : ι} {name : String}
    (hjob : jobs i = .isOnline name) :
    Performs net jobs before (isOnlineByName net name) s fun b t => b = true →
      ∃ charId, Named net.lower t (net.lower name) charId ∧
        lastSaid t.dispatched charId = some true := by
  refine Does.bind (performs_lookupUser hs (Or.inl hjob)) fun r t hgood hr => ?_
  cases r with
  | none => exact Does.pure hgood fun hfalse => by cases hfalse
  | some charId =>
    have hnamed := hr charId rfl
    refine Does.bind (performs_addBuddy hgood hjob hnamed) fun _ t' hgood' hext => ?_
    refine (performs_look hgood' _).mono fun b t'' h htrue => ?_
    obtain ⟨hext', u, hu, rfl, rfl⟩ := h
    refine ⟨charId, hnamed.mono (hext.trans hext'), ?_⟩
    rw [hu.online charId] at htrue
    show lastSaid u.dispatched charId = some true
    cases hsaid : lastSaid u.dispatched charId with
    | none =>
      rw [hsaid] at htrue
      cases htrue
    | some b =>
      rw [hsaid] at htrue
      exact congrArg some htrue

end Methods

/-! The background tasks -/

section Tasks
variable {s : Chat}

theorem playerName_known (hs : Good net jobs before s) (charId : ℕ) :
    KnownAs s charId (playerName s.client.idToName charId) := by
  unfold playerName
  cases hname : s.client.idToName charId with
  | none => exact Or.inl rfl
  | some name =>
    by_cases hempty : name = ""
    · exact Or.inl (if_pos hempty)
    · have hsome : (if name = "" then toString charId else name) = name := if_neg hempty
      show KnownAs s charId (if name = "" then toString charId else name)
      rw [hsome]
      exact hs.known charId name hname

/-- A reply goes to the sender of the tell it answers. -/
theorem performs_handleTell (hs : Good net jobs before s) {i : ι} {turns charId : ℕ} {message : String}
    (hjob : jobs i = .read turns) (htold : Told s charId message) :
    Performs net jobs before (handleTell net charId message) s fun _ _ => True := by
  refine Does.bind (performs_look hs _) fun player t hgood h => ?_
  obtain ⟨hext, u, hu, rfl, rfl⟩ := h
  have hknown := playerName_known hu charId
  refine Does.bind (F := fun reply v => Asked net jobs v (tellTo charId reply)) ?_
    fun reply v hv hasked => (performs_sendPacket hv hasked).mono fun _ _ _ => trivial
  refine performs_act hgood fun v _ hext' _ => ⟨keeps_tick v, fun reply hreply => ?_⟩
  have hlater : Extends v { v with tick := v.tick + 1 } := ⟨fun _ h => h, rfl⟩
  have hsame : Extends u { u with tick := u.tick + 1 } := ⟨fun _ h => h, rfl⟩
  exact .reply hjob (htold.mono ((hext.trans hext').trans hlater))
    (hknown.mono ((hsame.trans hext').trans hlater)) hreply

theorem decodes_of_readPacket {ending : Ending} {data rest : Bytes} {pkt : InboundPacket}
    (h : readPacket ending data = .ok (pkt, rest)) :
    ∃ ptype payload, decodePacket ptype payload = .ok pkt := by
  unfold readPacket at h
  cases hframe : readFrame ending data with
  | error e =>
    rw [hframe] at h
    cases h
  | ok r =>
    obtain ⟨⟨ptype, payload⟩, rest'⟩ := r
    rw [hframe, ok_bind] at h
    obtain ⟨pkt', hdecode, hsame⟩ := except_bind_eq_ok.mp h
    cases hsame
    exact ⟨ptype, payload, hdecode⟩

theorem performs_readTurn (hs : Good net jobs before s) :
    Performs net jobs before (readTurn net) s fun r t =>
      ∀ charId message, r = some (some (.tell charId message)) → Told t charId message := by
  refine performs_act hs fun t _ _ _ => ?_
  dsimp only
  cases hread : readPacket net.ending t.unread with
  | error e => cases e <;> exact ⟨keeps_tick t, fun r hr charId message h => by subst h; cases hr⟩
  | ok r =>
    obtain ⟨pkt, unread⟩ := r
    obtain ⟨ptype, payload, hdecode⟩ := decodes_of_readPacket hread
    obtain ⟨⟨client, notice⟩, hdispatch⟩ := dispatch_ok net.lower t.client hdecode
    have hcases := dispatch_cases hdispatch
    dsimp only
    rw [hdispatch]
    refine ⟨keeps_dispatched hcases rfl rfl rfl, fun r hr charId message h => ?_⟩
    subst h
    cases hr
    cases hcases with
    | @tell id text blob heq => exact ⟨text, blob, rfl, by rw [← heq]; simp⟩
    | nothing hno => exact absurd rfl (hno charId message)

theorem performs_readLoop (hs : Good net jobs before s) {i : ι} {turns : ℕ}
    (hjob : jobs i = .read turns) (fuel : ℕ) :
    Performs net jobs before (readLoop net fuel) s fun _ _ => True := by
  induction fuel generalizing s with
  | zero => exact Does.pure hs trivial
  | succ fuel ih =>
    refine Does.bind (performs_look hs _) fun stopping t hgood _ => ?_
    by_cases hstop : stopping = true
    · rw [if_pos hstop]
      exact Does.pure hgood trivial
    rw [if_neg hstop]
    refine Does.bind (performs_readTurn hgood) fun r u hu htold => ?_
    cases r with
    | none => exact Does.pure hu trivial
    | some notice =>
      have hnotify : Performs net jobs before (notify net notice) u fun _ _ => True := by
        cases notice with
        | none => exact Does.pure hu trivial
        | some notice =>
          cases notice with
          | tell charId message => exact performs_handleTell hu hjob (htold charId message rfl)
          | privgroup | buddy => exact Does.pure hu trivial
      exact Does.bind hnotify fun _ v hv _ => ih hv

theorem performs_sendPing (hs : Good net jobs before s) {i : ι} {turns : ℕ}
    (hjob : jobs i = .keepalive turns) :
    Performs net jobs before (sendPing net) s fun _ _ => True := by
  refine Does.handle (Does.bind (performs_sendPacket hs (.keepalive hjob)) fun _ t ht _ =>
    Does.pure ht trivial) fun e t ht _ => ?_
  by_cases hlost : e = .connection
  · rw [if_pos hlost]
    exact Does.pure ht trivial
  · rw [if_neg hlost]
    exact Does.throw ht trivial

theorem performs_keepaliveLoop (hs : Good net jobs before s) {i : ι} {turns : ℕ}
    (hjob : jobs i = .keepalive turns) (fuel : ℕ) :
    Performs net jobs before (keepaliveLoop net fuel) s fun _ _ => True := by
  induction fuel generalizing s with
  | zero => exact Does.pure hs trivial
  | succ fuel ih =>
    refine Does.bind (performs_look hs _) fun stopping t hgood _ => ?_
    by_cases hstop : stopping = true
    · rw [if_pos hstop]
      exact Does.pure hgood trivial
    rw [if_neg hstop]
    refine Does.bind (F := fun _ _ => True) ?_ fun _ u hu _ => ?_
    · exact performs_act hgood fun u _ _ _ => ⟨keeps_tick u, fun _ _ => trivial⟩
    refine Does.bind (performs_sendPing hu hjob) fun sent v hv _ => ?_
    by_cases hsent : sent = true
    · rw [if_pos hsent]
      exact ih hv
    · rw [if_neg hsent]
      exact Does.pure hv trivial

theorem performs_announce (hs : Good net jobs before s) {i : ι} {message : String}
    (hjob : jobs i = .announce message) :
    Performs net jobs before (announce net message) s fun _ _ => True := by
  refine Does.bind (performs_look hs _) fun own t hgood h => ?_
  obtain ⟨_, u, _, rfl, rfl⟩ := h
  cases hown : u.selected.map CharacterInfo.id with
  | none => exact Does.pure hgood trivial
  | some gid => exact (performs_sendPacket hgood (.announce hjob hown)).mono fun _ _ _ => trivial

end Tasks

def Answers (net : Net) : Job → Answer → Chat → Prop
  | .isOnline name, answer, s => answer = some true →
    ∃ charId, Named net.lower s (net.lower name) charId ∧ lastSaid s.dispatched charId = some true
  | _, _, _ => True

/-- Every job leaves the session good, and its answer says what `Answers` has. -/
theorem perform_performs {s : Chat} (hs : Good net jobs before s) (i : ι) :
    Performs net jobs before (perform net (jobs i)) s (Answers net (jobs i)) := by
  cases hjob : jobs i with
  | tell charId message =>
    exact Does.bind (performs_sendPacket hs (.tell hjob)) fun _ t ht _ => Does.pure ht trivial
  | tellByName name message =>
    exact Does.bind (performs_sendTellByName hs hjob) fun _ t ht _ => Does.pure ht trivial
  | announce message =>
    exact Does.bind (performs_announce hs hjob) fun _ t ht _ => Does.pure ht trivial
  | isOnline name =>
    refine Does.bind (performs_isOnlineByName hs hjob) fun b t ht h => Does.pure ht fun htrue => ?_
    exact h (Option.some.inj htrue)
  | keepalive turns =>
    exact Does.bind (performs_keepaliveLoop hs hjob turns) fun _ t ht _ => Does.pure ht trivial
  | read turns =>
    exact Does.bind (performs_readLoop hs hjob turns) fun _ t ht _ => Does.pure ht trivial

/-! Any jobs, in any order of turns -/

/-- A session whose login is over: nothing has been dispatched. -/
structure Fresh (s : Chat) : Prop where
  client : s.client = {}
  dispatched : s.dispatched = []

/-- After the login the session is good, nothing having been dispatched. -/
theorem good_of_fresh {s : Chat} (h : Fresh s) : Good net jobs s.written s := by
  obtain ⟨hclient, hdispatched⟩ := h
  refine ⟨fun key charId hkey => ?_, fun charId player hid => ?_, fun charId => ?_,
    fun key f hf => ?_, [], [], List.Forall₂.nil, ?_, fun p hp => ?_⟩
  · rw [hclient] at hkey
    cases hkey
  · rw [hclient] at hid
    cases hid
  · rw [hclient, hdispatched]
    rfl
  · rw [hclient] at hf
    cases hf
  · rw [List.flatten_nil, List.append_nil]
  · cases hp

def session (net : Net) (start : Chat) (jobs : ι → Job) : Pool ι ChatCall Chat PyErr Answer :=
  .start start fun i => perform net (jobs i)

variable [DecidableEq ι]

theorem good_session {start : Chat} (h : Fresh start) (schedule : List ι) :
    Good net jobs start.written ((session net start jobs).exec schedule).shared :=
  (exec_keeps Onward.refl (fun _ _ _ h h' => h.trans h') (good_of_fresh h)
    (fun i => perform_performs (good_of_fresh h) i) schedule).1

theorem encoded_of_mem {packets : List OutPacket} {frames : List Bytes}
    (h : List.Forall₂ (fun p frame => encodePacket p.type p.args = .ok frame) packets frames)
    {p : OutPacket} (hp : p ∈ packets) : ∃ frame, encodePacket p.type p.args = .ok frame := by
  induction h with
  | nil => cases hp
  | @cons q frame packets frames hhead _ ih =>
    rcases List.mem_cons.mp hp with rfl | hp
    · exact ⟨frame, hhead⟩
    · exact ih hp

theorem frames_eq {packets : List OutPacket} {frames frames' : List Bytes}
    (h : List.Forall₂ (fun p frame => encodePacket p.type p.args = .ok frame) packets frames)
    (h' : (packets.mapM fun p => encodePacket p.type p.args) = .ok frames') : frames' = frames := by
  induction h generalizing frames' with
  | nil =>
    cases h'
    rfl
  | @cons p frame packets frames hhead _ ih =>
    rw [List.mapM_cons] at h'
    obtain ⟨b, hb, h'⟩ := except_bind_eq_ok.mp h'
    obtain ⟨bs, hbs, h'⟩ := except_bind_eq_ok.mp h'
    rw [hhead] at hb
    cases hb
    cases h'
    rw [ih hbs]

/-- However the jobs alternate, and whatever fails: what they have written is a row of whole
packets that a peer reads back one by one, and each of them is one a job asked for, to the
character the server named for it. -/
theorem outbound_traffic (net : Net) {start : Chat} (hfresh : Fresh start) (jobs : ι → Job)
    (schedule : List ι) (ending : Ending) :
    let s := ((session net start jobs).exec schedule).shared
    ∃ (packets : List OutPacket) (frames : List Bytes) (read : List (ℕ × Bytes)),
      s.written = start.written ++ frames.flatten ∧
      readMany (readFrame ending) packets.length frames.flatten = .ok (read, []) ∧
      List.Forall₂ Arrives packets read ∧ ∀ p ∈ packets, Asked net jobs s p := by
  intro s
  obtain ⟨packets, frames, hframes, hwritten, hasked⟩ :=
    (@good_session ι net jobs _ start hfresh schedule).whole
  have hwell : ∀ p ∈ packets, p.WellTyped ∧ p.Fits := by
    intro p hp
    have htyped := wellTyped_of_asked (hasked p hp)
    refine ⟨htyped, ?_⟩
    by_contra hfits
    obtain ⟨e, he⟩ := OutPacket.encode_unfit htyped hfits
    obtain ⟨frame, hframe⟩ := encoded_of_mem hframes hp
    rw [he] at hframe
    cases hframe
  obtain ⟨frames', read, hframes', hreads, harrive⟩ := frames_read_back hwell ending
  rw [frames_eq hframes hframes'] at hreads
  refine ⟨packets, frames, read, hwritten, ?_, harrive, hasked⟩
  have hall := readMany_flatten hreads []
  rw [List.append_nil, ← harrive.length_eq] at hall
  exact hall

/-! A session in which Tara is looked up and comes online -/

def taraOnline : Chat where
  unread := frame clientLookup [0, 0, 0, 7, 0, 4, 84, 97, 114, 97] ++
    frame buddyLogonoff [0, 0, 0, 7, 0, 0, 0, 1, 0, 0]

def quietNet : Net where
  lower s := s
  ending := .eof
  drained _ := .ok ()
  expired _ := false
  reply _ _ _ := .ok ""

def askAndRead (i : Bool) : Job := if i then .isOnline "Tara" else .read 2

theorem fresh_taraOnline : Fresh taraOnline := ⟨rfl, rfl⟩

theorem tara_session_outbound :
    let s := ((session quietNet taraOnline askAndRead).exec
      [true, false, false, false, false, true, true, true]).shared
    ∃ (packets : List OutPacket) (frames : List Bytes) (read : List (ℕ × Bytes)),
      s.written = taraOnline.written ++ frames.flatten ∧
      readMany (readFrame .eof) packets.length frames.flatten = .ok (read, []) ∧
      List.Forall₂ Arrives packets read ∧ ∀ p ∈ packets, Asked quietNet askAndRead s p :=
  outbound_traffic quietNet fresh_taraOnline askAndRead _ .eof

/-- A job that reports a player online does so at a moment when the last the server has said
of a character it named for that player is that it is online. -/
theorem online_as_last_said (net : Net) {start : Chat} (hfresh : Fresh start) (jobs : ι → Job)
    {i : ι} {name : String} (hjob : jobs i = .isOnline name) {schedule : List ι}
    (hwaiting : ¬ (((session net start jobs).exec schedule).thread i).Finished)
    (hret : (((session net start jobs).exec schedule).turn i).thread i = .ret (some true)) :
    ∃ charId, Named net.lower (((session net start jobs).exec schedule).turn i).shared
        (net.lower name) charId ∧
      lastSaid (((session net start jobs).exec schedule).turn i).shared.dispatched charId =
        some true := by
  have htogether := together_of_does Onward.refl fun i =>
    @perform_performs ι net jobs start.written start (good_of_fresh hfresh) i
  have hshared := @keeps_shared ChatCall Chat (Good net jobs start.written) (Onward net) ι
    Onward.refl fun _ _ _ h h' => h.trans h'
  have hanswer := (htogether.returned hshared hwaiting hret).2
  rw [hjob] at hanswer
  exact hanswer rfl

theorem tara_reported_online :
    ∃ charId, Named id (((session quietNet taraOnline askAndRead).exec
        [true, false, false, false, false, true, true, true]).turn true).shared "Tara" charId ∧
      lastSaid (((session quietNet taraOnline askAndRead).exec
        [true, false, false, false, false, true, true, true]).turn true).shared.dispatched charId =
          some true := by
  refine @online_as_last_said Bool _ quietNet taraOnline fresh_taraOnline askAndRead true "Tara"
    rfl _ ?_ rfl
  intro hfinished
  cases hfinished

end AoMarket.SessionTraffic
