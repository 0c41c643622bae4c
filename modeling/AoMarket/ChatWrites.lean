import AoMarket.ServiceWrites

/-!
The writes of the chat commands: a table with one line a command, the proof that
each handler keeps to its line, and the same for the whole reply to a tell.
-/

namespace AoMarket.ChatWrites

open Coroutine Regex Environment Commands AdminCommands Runner Writes ServiceWrites

def CommandWrites (player : String) (name : Command) (gs : Groups) (op : Write) : Prop :=
  match name with
  | .register => op = .insertUser player ∨ op = .insertAction
  | .unregister => confirmed gs = true ∧ op = .eraseUser player
  | .untrackAll => confirmed gs = true ∧ op = .clearWatch
  | .apikeyGenerate =>
    op = .insertUser player ∨ op = .revokeKeys player ∨ op = .createKey player
  | .apikeyRevoke => confirmed gs = true ∧ op = .revokeKeys player
  | .filterPrice | .filterQl | .filterClear => ∃ aoid, op = .updateFilter player aoid
  | .unwatchAll =>
    confirmed gs = true ∧ (op = .deleteSubscriptions player ∨ op = .insertAction)
  | .unwatchBulk | .unwatch =>
    op = .insertAction ∨ ∃ aoid, op = .deleteSubscription player aoid
  | .watchAoid =>
    op = .insertAction ∨ ∃ aoid, op = .upsertWatch aoid ∨ op = .insertSubscription player aoid
  | .overview => ∃ aoid, op = .upsertWatch aoid
  | _ => False

variable {A : Write → Prop} {env : Env} {player : String}

theorem keeps_parseAoid (digits : String) : Keeps A (parseAoid env digits) := by
  unfold parseAoid
  split
  · exact Coro.Frames.pure _
  · exact Coro.Frames.throw _

theorem keeps_listForPlayer (player : String) :
    Keeps A (AuthService.listForPlayer env player) := keeps_query Silent.nil

theorem keeps_listWatch (limit offset : ℤ) (auto : Option Bool) :
    Keeps A (MarketRepo.listWatch env limit offset auto) := keeps_query Silent.nil

/-- Without its confirmation a command only answers. -/
theorem keeps_ifConfirmed {gs : Groups} {answer : String} {p : M String}
    (h : confirmed gs = true → Keeps A p) :
    Keeps A (if !confirmed gs then pure answer else p) := by
  cases hc : confirmed gs with
  | false => exact Coro.Frames.pure _
  | true => exact h hc

/-- A command writes nothing but what its line of the table allows. -/
theorem keeps_dispatch (name : Command) (gs : Groups) :
    Keeps (CommandWrites player name gs) (Commands.dispatch env player name gs) := by
  cases name with
  | register =>
    exact Coro.Frames.bind (keeps_register (Or.inl rfl) (Or.inr rfl)) fun _ => Coro.Frames.pure _
  | unregister =>
    exact keeps_ifConfirmed fun hc =>
      Coro.Frames.bind (keeps_unregister ⟨hc, rfl⟩) fun _ => Coro.Frames.pure _
  | untrackAll =>
    exact keeps_ifConfirmed fun hc =>
      Coro.Frames.bind (keeps_clearWatch ⟨hc, rfl⟩) fun _ => Coro.Frames.pure _
  | apikeyGenerate =>
    refine Coro.Frames.bind (keeps_generateKey ?_ ?_ ?_) fun _ => Coro.Frames.pure _
    · exact Or.inl rfl
    · exact Or.inr (Or.inl rfl)
    · exact Or.inr (Or.inr rfl)
  | apikeyRevoke =>
    exact keeps_ifConfirmed fun hc =>
      Coro.Frames.bind (keeps_revokeAllForPlayer ⟨hc, rfl⟩) fun _ => Coro.Frames.pure _
  | apikeyList =>
    refine Coro.Frames.bind (keeps_listForPlayer player) fun keys => ?_
    split
    · exact Coro.Frames.pure _
    · exact Coro.Frames.pure _
  | statusDetails =>
    refine Coro.Frames.bind (keeps_listWatch _ _ _) fun _ => ?_
    exact Coro.Frames.bind keeps_statusSummary fun _ => Coro.Frames.pure _
  | status => exact Coro.Frames.bind keeps_statusSummary fun _ => Coro.Frames.pure _
  | watchlist =>
    exact Coro.Frames.bind (keeps_query Silent.nil) fun _ => Coro.Frames.ofExcept _
  | userStats =>
    refine Coro.Frames.bind (keeps_userStats _) fun stats => ?_
    cases stats with
    | none => exact Coro.Frames.pure _
    | some s => exact Coro.Frames.pure _
  | filterPrice =>
    refine Coro.Frames.bind (keeps_parseAoid _) fun aoid => ?_
    refine Coro.Frames.bind (keeps_setPriceFilter ⟨aoid, rfl⟩ _) fun _ => ?_
    refine Coro.Frames.bind (keeps_requireSubscription _ _) fun _ => ?_
    exact Coro.Frames.bind (Coro.Frames.ofExcept _) fun _ => Coro.Frames.pure _
  | filterQl =>
    refine Coro.Frames.bind (keeps_parseAoid _) fun aoid => ?_
    refine Coro.Frames.bind (keeps_setQlFilter ⟨aoid, rfl⟩ _) fun _ => ?_
    refine Coro.Frames.bind (keeps_requireSubscription _ _) fun _ => ?_
    exact Coro.Frames.bind (Coro.Frames.ofExcept _) fun _ => Coro.Frames.pure _
  | filterClear =>
    refine Coro.Frames.bind (keeps_parseAoid _) fun aoid => ?_
    exact Coro.Frames.bind (keeps_clearFilter ⟨aoid, rfl⟩) fun _ => Coro.Frames.pure _
  | filterShow =>
    refine Coro.Frames.bind (keeps_parseAoid _) fun aoid => ?_
    exact Coro.Frames.bind (keeps_requireSubscription _ _) fun _ => Coro.Frames.ofExcept _
  | unwatchAll =>
    cases hc : confirmed gs with
    | false =>
      simp only [Commands.dispatch, hc]
      exact Coro.Frames.pure _
    | true =>
      simp only [Commands.dispatch, hc]
      refine Coro.Frames.bind (keeps_unsubscribeAll ?_ ?_) fun _ => Coro.Frames.pure _
      · exact ⟨hc, Or.inl rfl⟩
      · exact ⟨hc, Or.inr rfl⟩
  | unwatchBulk =>
    simp only [Commands.dispatch]
    generalize splitNumbers (PyText.strip (textOf gs 1)) = numerals
    refine Coro.Frames.bind (keeps_mapM (fun _ => keeps_parseAoid _) _) fun aoids => ?_
    refine Coro.Frames.bind (keeps_unsubscribeBulk ?_ ?_) fun _ => Coro.Frames.pure _
    · exact Or.inl rfl
    · exact fun a _ => Or.inr ⟨a, rfl⟩
  | unwatch =>
    refine Coro.Frames.bind (keeps_parseAoid _) fun aoid => ?_
    refine Coro.Frames.bind (keeps_unsubscribe ?_ ?_) fun _ => Coro.Frames.pure _
    · exact Or.inr ⟨aoid, rfl⟩
    · exact Or.inl rfl
  | watchAoid =>
    refine Coro.Frames.bind (keeps_parseAoid _) fun aoid => ?_
    refine Coro.Frames.bind (keeps_subscribe ?_ ?_ ?_) fun _ => Coro.Frames.pure _
    · exact Or.inr ⟨aoid, Or.inl rfl⟩
    · exact Or.inr ⟨aoid, Or.inr rfl⟩
    · exact Or.inl rfl
  | watchSearch =>
    exact Coro.Frames.bind (keeps_external fun _ => Silent.nil) fun _ => Coro.Frames.pure _
  | search =>
    exact Coro.Frames.bind (keeps_external fun _ => Silent.nil) fun _ => Coro.Frames.pure _
  | overview =>
    refine Coro.Frames.bind (keeps_parseAoid _) fun aoid => ?_
    refine Coro.Frames.bind (keeps_getItem aoid) fun item => ?_
    cases item with
    | none => exact Coro.Frames.pure _
    | some item =>
      refine Coro.Frames.bind (keeps_watchItem ⟨aoid, rfl⟩ _ _ _ _) fun _ => ?_
      refine Coro.Frames.bind (keeps_external fun _ => Silent.nil) fun _ => ?_
      exact Coro.Frames.ofExcept _

def MessageWrites (player msg : String) (op : Write) : Prop :=
  ∃ name gs, selectCommand msg = some (name, gs) ∧ CommandWrites player name gs op

/-- Of a message only the command it selects writes. -/
theorem keeps_selected {msg : String} (h : ∀ name gs, selectCommand msg = some (name, gs) →
    Keeps A (Commands.dispatch env player name gs)) : Keeps A (handleCommand env player msg) := by
  refine Coro.Frames.bind (keeps_getBool _) fun on => ?_
  cases on with
  | false => exact Coro.Frames.pure _
  | true =>
    cases hsel : selectCommand msg with
    | none => exact Coro.Frames.pure _
    | some c =>
      apply Coro.Frames.handle (h c.1 c.2 hsel)
      intro e
      split
      · exact Coro.Frames.pure _
      · exact Coro.Frames.throw _

theorem keeps_handleCommand (msg : String) :
    Keeps (MessageWrites player msg) (handleCommand env player msg) := by
  refine keeps_selected fun name gs hsel => ?_
  apply Coro.Frames.mono (keeps_dispatch name gs)
  exact fun w w' hw => hw.mono fun op hop => ⟨name, gs, hsel, hop⟩

/-! The admin command -/

theorem keeps_coerceOrReply (key raw : String) : Keeps A (coerceOrReply env key raw) := by
  apply Coro.Frames.handle
  · refine Coro.Frames.bind (Coro.Frames.bind (keeps_get _) fun _ => ?_) fun _ => ?_
    · exact Coro.Frames.ofExcept _
    · exact Coro.Frames.pure _
  · intro e
    split
    · exact Coro.Frames.pure _
    · exact Coro.Frames.throw _

section Frames
variable {R : World → World → Prop}

/-- A settings command writes in no other way than by SettingsRepo.set, so a relation that `set`
keeps and that calls without a write keep is kept by the command. -/
theorem frames_adminDispatch (hquiet : ∀ w w', Steps (fun _ => False) w w' → R w w')
    (hset : ∀ key value, (SettingsRepo.set env key value).Frames R) (name : AdminCommand)
    (gs : Groups) : (AdminCommands.dispatch env name gs).Frames R := by
  have hget : ∀ key, (SettingsRepo.get env key).Frames R :=
    fun key => Coro.Frames.mono (keeps_get key) hquiet
  cases name with
  | settingsSet =>
    refine Coro.Frames.bind (Coro.Frames.mono (keeps_coerceOrReply _ _) hquiet) fun r => ?_
    cases r with
    | inl message => exact Coro.Frames.pure _
    | inr value =>
      refine Coro.Frames.bind (hset _ _) fun _ => ?_
      exact Coro.Frames.bind (hget _) fun _ => Coro.Frames.pure _
  | settingsGet => exact Coro.Frames.bind (hget _) fun _ => Coro.Frames.pure _
  | settingsList =>
    refine Coro.Frames.bind (Coro.Frames.mono ?_ hquiet) fun _ => Coro.Frames.pure _
    exact keeps_query Silent.nil

/-- An admin command is one write of a setting at most. -/
theorem frames_handleAdminCommand (hquiet : ∀ w w', Steps (fun _ => False) w w' → R w w')
    (hset : ∀ key value, (SettingsRepo.set env key value).Frames R) (msg : String) :
    (handleAdminCommand env player msg).Frames R := by
  unfold handleAdminCommand
  split
  · exact Coro.Frames.pure _
  · refine Coro.Frames.bind (Coro.Frames.mono (keeps_isAdminPlayer player) hquiet) fun admin => ?_
    cases admin with
    | false => exact Coro.Frames.pure _
    | true =>
      refine Coro.Frames.bind ?_ fun _ => Coro.Frames.pure _
      apply Coro.Frames.handle (frames_adminDispatch hquiet hset _ _)
      intro e
      split
      · exact Coro.Frames.pure _
      · exact Coro.Frames.throw _

end Frames

theorem keeps_handleAdminCommand (h : A .setting) (msg : String) :
    Keeps A (handleAdminCommand env player msg) :=
  frames_handleAdminCommand (fun _ _ hw => hw.mono fun _ hop => hop.elim)
    (fun key value => keeps_set h key value) msg

def TellWrites (player msg : String) (op : Write) : Prop :=
  op = .setting ∨ MessageWrites player msg op

theorem keeps_replyTo (msg : String) : Keeps (TellWrites player msg) (replyTo env player msg) := by
  refine Coro.Frames.bind (keeps_handleAdminCommand (Or.inl rfl) msg) fun reply => ?_
  cases reply with
  | some r => exact Coro.Frames.pure _
  | none =>
    apply Coro.Frames.mono (keeps_handleCommand msg)
    exact fun w w' hw => hw.mono fun op => Or.inr

theorem keeps_sendReply (charId : ℕ) (message : String) :
    Keeps A (sendReply env charId message) := by
  unfold sendReply
  generalize tellPacket charId message = packet
  refine Coro.Frames.bind (Coro.Frames.ofExcept packet) fun _ => ?_
  exact keeps_external fun _ => silent_single rfl

/-- A tell writes a setting, or what its message may write. -/
theorem keeps_handleTell (nameForId : ℕ → Option String) (tell : InboundTell) :
    Keeps (TellWrites (playerName nameForId tell.senderId) tell.message)
      (handleTell env nameForId tell) := by
  unfold handleTell
  refine Coro.Frames.bind (keeps_replyTo tell.message) ?_
  intro reply
  exact keeps_sendReply tell.senderId reply

end AoMarket.ChatWrites
