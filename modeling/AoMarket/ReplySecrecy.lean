import AoMarket.PlayerView
import AoMarket.Runner
import AoMarket.ChatIsolation

/-!
The bot's answers to a player do not depend on what it keeps about the others. From two
worlds that look alike to the player, the tells of the player are answered the same way,
post the same messages, and leave worlds that look alike.
-/

namespace AoMarket.ReplySecrecy

open Coroutine Relational Models Database Environment Obliviousness PlayerView MarketRepo
  AuthService SettingsRepo Commands Runner PyText Regex

variable {env : Env} {p : String} {l l' : List Event} {α β : Type}

/-! Results that differ in what nobody is shown -/

theorem oblivious_query_bind {call : Call} {f : ℕ → Db → Except PyErr α} {note : List Event}
    {g : α → M β}
    (hf : ∀ tick (db db' : Db), SameView env p db.toTables db'.toTables →
      (Coro.ofExcept (f tick db') >>= g) = (Coro.ofExcept (f tick db) >>= g) ∧
        ((f tick db').isOk = (f tick db).isOk))
    (hg : ∀ a, Oblivious (Alike env p l l') (g a)) :
    Oblivious (Alike env p l l') (query env call f note >>= g) := by
  have hrest : ∀ r : Except PyErr α, Oblivious (Alike env p l l') (Coro.ofExcept r >>= g) :=
    fun r => Oblivious.bind (Oblivious.ofExcept r) hg
  refine Oblivious.act_bind fun w w' h => ?_
  rw [h.tick]
  cases hfault : env.dbFault w.tick with
  | some e => exact ⟨alike_next h, rfl, hrest _⟩
  | none =>
    obtain ⟨hsame, hok⟩ := hf w.tick w.db w'.db h.view
    dsimp only
    generalize f w.tick w.db = r at hsame hok
    generalize f w.tick w'.db = r' at hsame hok
    cases r with
    | error e =>
      cases r' with
      | error e' => exact ⟨alike_next h, hsame, hrest _⟩
      | ok a => cases hok
    | ok a =>
      cases r' with
      | error e' => cases hok
      | ok a' => exact ⟨⟨rfl, h.view, log_append h note⟩, hsame, hrest _⟩

theorem oblivious_external_bind {call : Call} {f : ℕ → Except PyErr α}
    {note : α → List Event} {g : α → M β}
    (hg : ∀ tick a, f tick = .ok a → Oblivious (Alike env p l l') (g a)) :
    Oblivious (Alike env p l l') (external call f note >>= g) := by
  refine Oblivious.act_bind fun w w' h => ?_
  rw [h.tick]
  cases hres : f w.tick with
  | error e => exact ⟨alike_next h, rfl, Oblivious.throw e⟩
  | ok a =>
    exact ⟨⟨congrArg (· + 1) h.tick, h.view, log_append h (note a)⟩, rfl, hg w.tick a hres⟩

/-! auth/service.py -/

theorem oblivious_isAdminPlayer : Oblivious (Alike env p l l') (isAdminPlayer env p) := by
  unfold isAdminPlayer
  split
  · exact Oblivious.pure true
  · refine Oblivious.bind oblivious_getUser fun user => ?_
    cases user with
    | none => exact Oblivious.pure _
    | some user => exact Oblivious.pure _

/-- The selected keys are told from the rows without their numbers. -/
theorem selected_length (db : Db) :
    (db.apiKeys.filter fun k => k.player == p && activeKey k).length =
      (((db.apiKeys.filter fun k => k.player == p).map unnumbered).filter activeKey).length := by
  rw [List.filter_map, List.length_map, List.filter_filter]
  apply congrArg (fun q => (List.filter q db.apiKeys).length)
  funext k
  exact Bool.and_comm _ _

theorem oblivious_revokeAllForPlayer :
    Oblivious (Alike env p l l') (revokeAllForPlayer env p) := by
  refine oblivious_statement fun tick db db' h => Matching.bind _ fun _ => ?_
  show Matching env p (.ok (_, _, [])) (.ok (_, _, []))
  rw [selected_length db, selected_length db', h.keys]
  exact .ok _ [] (sameView_updateApiKeys h _ (fun _ => rfl) fun _ => rfl)

theorem oblivious_create (tick : ℕ) (keyPrefix : String) :
    Oblivious (Alike env p l l') (create env p (env.hash ("aomk_" ++ env.token tick)) keyPrefix) :=
  oblivious_statement fun _ _ _ h => matching_insertApiKey h tick keyPrefix _ _ _

theorem oblivious_generateKey : Oblivious (Alike env p l l') (generateKey env p) := by
  have hdraw : Oblivious (Alike env p l l') (do
      let _ ← revokeAllForPlayer env p
      let raw ← generateToken env
      create env p (env.hash raw) (tokenPrefix raw)
      return raw) := by
    refine Oblivious.bind oblivious_revokeAllForPlayer fun _ => ?_
    refine oblivious_external_bind fun tick raw hraw => ?_
    rw [← Except.ok.inj hraw]
    exact Oblivious.bind (oblivious_create tick _) fun _ => Oblivious.pure _
  refine Oblivious.bind oblivious_isRegistered fun registered => ?_
  cases registered with
  | true => exact hdraw
  | false => exact Oblivious.bind oblivious_register fun _ => hdraw

/-- The listing of the keys is told from the rows without their numbers. -/
theorem oblivious_listKeys {g : List ApiKey → M String}
    (hsame : ∀ ks ks' : List ApiKey, ks'.map unnumbered = ks.map unnumbered → g ks' = g ks)
    (hg : ∀ ks, Oblivious (Alike env p l l') (g ks)) :
    Oblivious (Alike env p l l') (listKeys env p >>= g) := by
  unfold listKeys listForPlayer
  refine oblivious_query_bind (fun tick db db' h => ?_) hg
  cases htext : text env p with
  | error e => exact ⟨rfl, rfl⟩
  | ok u =>
    refine ⟨hsame _ _ ?_, rfl⟩
    have hsort : ∀ rows : List ApiKey,
        (rows.insertionSort fun a b => b.createdAt ≤ a.createdAt).map unnumbered =
          (rows.map unnumbered).insertionSort fun a b => b.createdAt ≤ a.createdAt :=
      fun rows => List.map_insertionSort _ _ _ _ fun _ _ _ _ => Iff.rfl
    rw [hsort, hsort, h.keys]

/-! db/settings_repo.py -/

theorem oblivious_getRow (key : String) : Oblivious (Alike env p l l') (getRow env key) :=
  oblivious_query fun _ db db' h => by rw [h.settings]

theorem oblivious_get (key : String) : Oblivious (Alike env p l l') (get env key) :=
  Oblivious.bind (oblivious_getRow key) fun _ => Oblivious.ofExcept _

theorem oblivious_getBool (key : String) : Oblivious (Alike env p l l') (getBool env key) := by
  refine Oblivious.bind (oblivious_get key) fun value => ?_
  cases value with
  | bool b => exact Oblivious.pure b
  | _ => exact Oblivious.throw _

theorem oblivious_getInt (key : String) : Oblivious (Alike env p l l') (getInt env key) := by
  refine Oblivious.bind (oblivious_get key) fun value => ?_
  cases value with
  | int n => exact Oblivious.pure n
  | _ => exact Oblivious.throw _

theorem oblivious_set (key : String) (value : SettingValue) :
    Oblivious (Alike env p l l') (set env key value) := by
  refine Oblivious.bind (oblivious_getRow key) fun row => ?_
  refine Oblivious.bind (Oblivious.ofExcept _) fun newValue => ?_
  refine oblivious_statement fun _ db db' h => Matching.bind _ fun _ => ?_
  exact .ok () [] (sameView_updateSetting h key newValue)

theorem oblivious_all : Oblivious (Alike env p l l') (all env) :=
  oblivious_query fun _ db db' h => by rw [h.settings]

/-! market/service.py -/

section Service
open MarketService

theorem oblivious_sendPrivgroup (message : String) :
    Oblivious (Alike env p l l') (sendPrivgroup env message) := by
  unfold sendPrivgroup
  split
  · exact oblivious_external
  · exact Oblivious.pure _

theorem oblivious_ifEnabled {key : String} {act : M Unit}
    (hact : Oblivious (Alike env p l l') act) :
    Oblivious (Alike env p l l') (do
      if !(← getBool env key) then
        return
      act) := by
  refine Oblivious.bind (oblivious_getBool key) fun b => ?_
  cases b with
  | true => exact hact
  | false => exact Oblivious.pure _

theorem oblivious_announce (player action : String) (aoid : Option ℤ) :
    Oblivious (Alike env p l l') (announce env player action aoid) := by
  refine oblivious_ifEnabled ?_
  cases aoid with
  | none => exact oblivious_sendPrivgroup _
  | some a =>
    refine Oblivious.bind oblivious_external fun item => ?_
    cases item with
    | none => exact oblivious_sendPrivgroup _
    | some item => exact oblivious_sendPrivgroup _

theorem oblivious_announceTracked (itemName : String) (auto : Bool) :
    Oblivious (Alike env p l l') (announceTracked env itemName auto) := by
  unfold announceTracked announceBackground
  split
  · exact oblivious_ifEnabled (oblivious_sendPrivgroup _)
  · exact oblivious_ifEnabled (oblivious_sendPrivgroup _)

theorem oblivious_logAction_service (action : String) (aoid : Option ℤ) :
    Oblivious (Alike env p l l') (MarketService.logAction env p action aoid) :=
  Oblivious.bind (oblivious_logAction action aoid) fun _ => oblivious_announce p action aoid

theorem oblivious_registerPlayer : Oblivious (Alike env p l l') (MarketService.register env p) := by
  refine Oblivious.bind oblivious_isRegistered fun registered => ?_
  cases registered with
  | true => exact Oblivious.throw _
  | false => exact Oblivious.bind oblivious_register fun _ => oblivious_logAction_service _ _

theorem oblivious_unregister : Oblivious (Alike env p l l') (unregister env p) := by
  refine Oblivious.bind oblivious_isRegistered fun registered => ?_
  cases registered with
  | false => exact Oblivious.throw _
  | true =>
    exact Oblivious.bind oblivious_unregisterCascade fun _ =>
      Oblivious.bind (oblivious_announce _ _ _) fun _ => Oblivious.pure _

theorem oblivious_watchItem (aoid : ℤ) (name : String) (ql : ℤ) (icon : Option ℤ)
    (autoTracked : Bool) :
    Oblivious (Alike env p l l') (watchItem env aoid name ql icon autoTracked) := by
  refine Oblivious.bind (oblivious_upsertWatch aoid name ql icon autoTracked) fun isNew => ?_
  cases isNew with
  | true =>
    exact Oblivious.bind (oblivious_announceTracked name autoTracked) fun _ => Oblivious.pure _
  | false => exact Oblivious.pure _

theorem oblivious_subscribeWithin (aoid : ℤ) (item : Item) :
    Oblivious (Alike env p l l') (subscribeWithin env p aoid item) := by
  refine Oblivious.bind (oblivious_getInt _) fun limit => ?_
  refine Oblivious.bind oblivious_countSubscriptions fun count => ?_
  split
  · exact Oblivious.throw _
  · exact Oblivious.bind (oblivious_watchItem _ _ _ _ _) fun _ =>
      Oblivious.bind (oblivious_addSubscription aoid) fun _ =>
        Oblivious.bind (oblivious_logAction_service _ _) fun _ => Oblivious.pure _

theorem oblivious_subscribe (aoid : ℤ) : Oblivious (Alike env p l l') (subscribe env p aoid) := by
  refine Oblivious.bind oblivious_external fun item => ?_
  cases item with
  | none => exact Oblivious.throw _
  | some item =>
    refine Oblivious.bind oblivious_isRegistered fun registered => ?_
    cases registered with
    | false => exact Oblivious.bind (oblivious_logAction_service _ _) fun _ => Oblivious.throw _
    | true =>
      refine Oblivious.bind (oblivious_getSubscription aoid) fun sub => ?_
      cases sub with
      | some s => exact Oblivious.throw _
      | none => exact oblivious_subscribeWithin aoid item

theorem oblivious_unsubscribe (aoid : ℤ) :
    Oblivious (Alike env p l l') (unsubscribe env p aoid) :=
  Oblivious.bind (oblivious_deleteSubscription aoid) fun _ =>
    Oblivious.bind (oblivious_logAction_service _ _) fun _ => Oblivious.pure _

theorem oblivious_unsubscribeEach (aoids : List ℤ) :
    Oblivious (Alike env p l l') (unsubscribeEach env p aoids) := by
  induction aoids with
  | nil => exact Oblivious.pure _
  | cons aoid rest ih =>
    refine Oblivious.bind (oblivious_unsubscribe aoid) fun deleted => Oblivious.bind ih fun both => ?_
    cases deleted with
    | true => exact Oblivious.pure _
    | false => exact Oblivious.pure _

theorem oblivious_unsubscribeBulk (aoids : List ℤ) :
    Oblivious (Alike env p l l') (unsubscribeBulk env p aoids) := oblivious_unsubscribeEach _

theorem oblivious_unsubscribeAll : Oblivious (Alike env p l l') (unsubscribeAll env p) :=
  Oblivious.bind oblivious_deleteAllSubscriptions fun _ =>
    Oblivious.bind (oblivious_logAction_service _ _) fun _ => Oblivious.pure _

theorem oblivious_requireSubscription (aoid : ℤ) :
    Oblivious (Alike env p l l') (requireSubscription env p aoid) := by
  refine Oblivious.bind (oblivious_getSubscription aoid) fun sub => ?_
  cases sub with
  | none => exact Oblivious.throw _
  | some s => exact Oblivious.pure s

theorem oblivious_setFilter {aoid : ℤ} {spec : String}
    {parser : String → Except PyErr (Option ℤ)} {update : Option ℤ → Option ℤ → M Unit}
    (hupdate : ∀ lo hi, Oblivious (Alike env p l l') (update lo hi)) :
    Oblivious (Alike env p l l') (setFilter env p aoid spec parser update) := by
  unfold setFilter
  generalize Parsing.parseRange spec parser = parsed
  refine Oblivious.bind (oblivious_requireSubscription aoid) fun _ => ?_
  refine Oblivious.bind (Oblivious.ofExcept parsed) fun range => ?_
  cases range with
  | none => exact Oblivious.throw _
  | some sides => exact hupdate sides.1 sides.2

theorem oblivious_clearFilter (aoid : ℤ) :
    Oblivious (Alike env p l l') (MarketService.clearFilter env p aoid) := by
  refine Oblivious.bind (oblivious_requireSubscription aoid) fun _ => ?_
  exact oblivious_updateFilter aoid _ _ _

theorem oblivious_userStats : Oblivious (Alike env p l l') (userStats env p) := by
  refine Oblivious.bind oblivious_userActionSummary ?_
  rintro ⟨total, firstSeen⟩
  dsimp only
  split
  · exact Oblivious.pure _
  · exact Oblivious.bind oblivious_userActionBreakdown fun _ =>
      Oblivious.bind oblivious_countSubscriptions fun _ => Oblivious.pure _

theorem oblivious_statusSummary : Oblivious (Alike env p l l') (statusSummary env) :=
  Oblivious.bind (oblivious_countWatch _) fun _ => Oblivious.bind (oblivious_countWatch _) fun _ =>
    Oblivious.bind (oblivious_getBool _) fun _ => Oblivious.bind (oblivious_getInt _) fun _ =>
      Oblivious.bind (oblivious_getInt _) fun _ => Oblivious.pure _

end Service

/-! The commands -/

def AsksOwn (p msg : String) : Prop :=
  ∀ gs, selectCommand msg = some (.userStats, gs) →
    strip (textOf gs 1) = "" ∨ strip (textOf gs 1) = p

theorem oblivious_parseAoid (digits : String) :
    Oblivious (Alike env p l l') (parseAoid env digits) := by
  unfold parseAoid
  split
  · exact Oblivious.pure _
  · exact Oblivious.throw _

theorem oblivious_ifConfirmed {gs : Groups} {act : M String} (warning : String)
    (hact : Oblivious (Alike env p l l') act) :
    Oblivious (Alike env p l l') (if !confirmed gs then pure warning else act) := by
  split
  · exact Oblivious.pure _
  · exact hact

/-- The reply to a listing shows no number of a key. -/
theorem keyLines_unnumbered {ks ks' : List ApiKey} (h : ks'.map unnumbered = ks.map unnumbered) :
    ks'.map keyLine = ks.map keyLine ∧ (ks' = [] ↔ ks = []) := by
  have hline : keyLine ∘ unnumbered = keyLine := rfl
  constructor
  · rw [← hline, ← List.map_map, ← List.map_map, h]
  · rw [← @List.map_eq_nil_iff _ _ unnumbered ks', h, List.map_eq_nil_iff]

theorem oblivious_apikeyList {none : String} {some : List String → String} :
    Oblivious (Alike env p l l') (do
      let keys ← listKeys env p
      if keys = [] then
        return none
      return some (keys.map keyLine)) := by
  refine oblivious_listKeys (fun ks ks' h => ?_) fun ks => ?_
  · obtain ⟨hlines, hnil⟩ := keyLines_unnumbered h
    rw [hlines]
    by_cases hks : ks = []
    · rw [if_pos hks, if_pos (hnil.mpr hks)]
    · rw [if_neg hks, if_neg (fun hks' => hks (hnil.mp hks'))]
  · split
    · exact Oblivious.pure _
    · exact Oblivious.pure _

section Dispatch
open MarketService

theorem oblivious_filterSet {update : ℤ → M Unit} {text : String → String} (digits : String)
    (hupdate : ∀ aoid, Oblivious (Alike env p l l') (update aoid)) :
    Oblivious (Alike env p l l') (do
      let aoid ← parseAoid env digits
      update aoid
      let sub ← getFilter env p aoid
      return text (← Coro.ofExcept (Rendering.describeSubscription env.py sub))) :=
  Oblivious.bind (oblivious_parseAoid digits) fun aoid => Oblivious.bind (hupdate aoid) fun _ =>
    Oblivious.bind (oblivious_requireSubscription aoid) fun _ =>
      Oblivious.bind (Oblivious.ofExcept _) fun _ => Oblivious.pure _

/-- No reply depends on rows of other players, but for the statistics asked of another one. -/
theorem oblivious_dispatch {name : Command} {gs : Groups}
    (hown : name = .userStats → strip (textOf gs 1) = "" ∨ strip (textOf gs 1) = p) :
    Oblivious (Alike env p l l') (dispatch env p name gs) := by
  unfold dispatch
  cases name with
  | register => exact Oblivious.bind oblivious_registerPlayer fun _ => Oblivious.pure _
  | unregister =>
    exact oblivious_ifConfirmed _ (Oblivious.bind oblivious_unregister fun _ => Oblivious.pure _)
  | untrackAll =>
    exact oblivious_ifConfirmed _ (Oblivious.bind oblivious_clearWatch fun _ => Oblivious.pure _)
  | apikeyGenerate => exact Oblivious.bind oblivious_generateKey fun _ => Oblivious.pure _
  | apikeyRevoke =>
    exact oblivious_ifConfirmed _
      (Oblivious.bind oblivious_revokeAllForPlayer fun _ => Oblivious.pure _)
  | apikeyList => exact @oblivious_apikeyList env p l l' _ fun texts =>
      "Your API keys:\n" ++ Rendering.lines texts
  | statusDetails =>
    exact Oblivious.bind (oblivious_listWatch _ _ _) fun _ =>
      Oblivious.bind oblivious_statusSummary fun _ => Oblivious.pure _
  | status => exact Oblivious.bind oblivious_statusSummary fun _ => Oblivious.pure _
  | watchlist => exact Oblivious.bind oblivious_listSubscriptions fun _ => Oblivious.ofExcept _
  | userStats =>
    have htarget : (if strip (textOf gs 1) = "" then p else strip (textOf gs 1)) = p := by
      rcases hown rfl with hempty | hself
      · rw [if_pos hempty]
      · rw [hself]
        simp
    dsimp only
    rw [htarget]
    refine Oblivious.bind oblivious_userStats fun stats => ?_
    cases stats with
    | none => exact Oblivious.pure _
    | some stats => exact Oblivious.pure _
  | filterPrice =>
    refine oblivious_filterSet _ fun aoid => oblivious_setFilter fun lo hi => ?_
    exact oblivious_updateFilter aoid _ _ _
  | filterQl =>
    refine oblivious_filterSet _ fun aoid => oblivious_setFilter fun lo hi => ?_
    exact oblivious_updateFilter aoid _ _ _
  | filterClear =>
    exact Oblivious.bind (oblivious_parseAoid _) fun aoid =>
      Oblivious.bind (oblivious_clearFilter aoid) fun _ => Oblivious.pure _
  | filterShow =>
    exact Oblivious.bind (oblivious_parseAoid _) fun aoid =>
      Oblivious.bind (oblivious_requireSubscription aoid) fun _ => Oblivious.ofExcept _
  | unwatchAll =>
    exact oblivious_ifConfirmed _ (Oblivious.bind oblivious_unsubscribeAll fun _ => Oblivious.pure _)
  | unwatchBulk =>
    generalize splitNumbers (strip (textOf gs 1)) = texts
    refine Oblivious.bind (Oblivious.mapM oblivious_parseAoid texts) fun aoids => ?_
    exact Oblivious.bind (oblivious_unsubscribeBulk aoids) fun _ => Oblivious.pure _
  | unwatch =>
    exact Oblivious.bind (oblivious_parseAoid _) fun aoid =>
      Oblivious.bind (oblivious_unsubscribe aoid) fun _ => Oblivious.pure _
  | watchAoid =>
    exact Oblivious.bind (oblivious_parseAoid _) fun aoid =>
      Oblivious.bind (oblivious_subscribe aoid) fun _ => Oblivious.pure _
  | watchSearch => exact Oblivious.bind oblivious_external fun _ => Oblivious.pure _
  | search => exact Oblivious.bind oblivious_external fun _ => Oblivious.pure _
  | overview =>
    refine Oblivious.bind (oblivious_parseAoid _) fun aoid => ?_
    refine Oblivious.bind oblivious_external fun item => ?_
    cases item with
    | none => exact Oblivious.pure _
    | some item =>
      exact Oblivious.bind (oblivious_watchItem _ _ _ _ _) fun _ =>
        Oblivious.bind oblivious_external fun _ => Oblivious.ofExcept _

end Dispatch

theorem oblivious_handleCommand {msg : String} (hown : AsksOwn p msg) :
    Oblivious (Alike env p l l') (handleCommand env p msg) := by
  refine Oblivious.bind (oblivious_getBool _) fun enabled => ?_
  cases enabled with
  | false => exact Oblivious.pure _
  | true =>
    cases hselect : selectCommand msg with
    | none => exact Oblivious.pure _
    | some choice =>
      obtain ⟨name, gs⟩ := choice
      refine Oblivious.handle (oblivious_dispatch fun hname => ?_) fun e => ?_
      · rw [hname] at hselect
        exact hown gs hselect
      · cases e with
        | market e => exact Oblivious.pure _
        | _ => exact Oblivious.throw _

section Admin
open AdminCommands

theorem oblivious_coerceOrReply (key raw : String) :
    Oblivious (Alike env p l l') (coerceOrReply env key raw) := by
  refine Oblivious.handle (Oblivious.bind ?_ fun _ => Oblivious.pure _) fun e => ?_
  · exact Oblivious.bind (oblivious_get key) fun _ => Oblivious.ofExcept _
  · cases e with
    | value message => exact Oblivious.pure _
    | _ => exact Oblivious.throw _

theorem oblivious_adminDispatch (name : AdminCommand) (gs : Groups) :
    Oblivious (Alike env p l l') (AdminCommands.dispatch env name gs) := by
  unfold AdminCommands.dispatch
  cases name with
  | settingsSet =>
    refine Oblivious.bind (oblivious_coerceOrReply _ _) fun coerced => ?_
    cases coerced with
    | inl message => exact Oblivious.pure _
    | inr value =>
      exact Oblivious.bind (oblivious_set _ value) fun _ =>
        Oblivious.bind (oblivious_get _) fun _ => Oblivious.pure _
  | settingsGet => exact Oblivious.bind (oblivious_get _) fun _ => Oblivious.pure _
  | settingsList => exact Oblivious.bind oblivious_all fun _ => Oblivious.pure _

theorem oblivious_handleAdminCommand (msg : String) :
    Oblivious (Alike env p l l') (handleAdminCommand env p msg) := by
  unfold handleAdminCommand
  cases selectAdmin msg with
  | none => exact Oblivious.pure _
  | some choice =>
    obtain ⟨name, gs⟩ := choice
    refine Oblivious.bind oblivious_isAdminPlayer fun isAdmin => ?_
    cases isAdmin with
    | false => exact Oblivious.pure _
    | true =>
      refine Oblivious.bind (Oblivious.handle (oblivious_adminDispatch name gs) fun e => ?_)
        fun _ => Oblivious.pure _
      cases e with
      | unknownSetting key => exact Oblivious.pure _
      | _ => exact Oblivious.throw _

end Admin

theorem oblivious_replyTo {msg : String} (hown : AsksOwn p msg) :
    Oblivious (Alike env p l l') (replyTo env p msg) := by
  refine Oblivious.bind (oblivious_handleAdminCommand msg) fun reply => ?_
  cases reply with
  | some reply => exact Oblivious.pure _
  | none => exact oblivious_handleCommand hown

theorem oblivious_handleTell {nameForId : ℕ → Option String} {tell : InboundTell}
    (hown : AsksOwn (playerName nameForId tell.senderId) tell.message) :
    Oblivious (Alike env (playerName nameForId tell.senderId) l l')
      (handleTell env nameForId tell) := by
  refine Oblivious.bind (oblivious_replyTo hown) fun reply => ?_
  unfold sendReply
  generalize tellPacket tell.senderId reply = packet
  exact Oblivious.bind (Oblivious.ofExcept packet) fun _ => oblivious_external

/-- From two worlds that a player cannot tell apart, any tells of the player that ask for
nobody else's activity are answered the same way, and post the same. -/
theorem replies_blind_to_others (env : Env) (nameForId : ℕ → Option String) (p : String)
    (tells : List InboundTell) (hfrom : ∀ t ∈ tells, playerName nameForId t.senderId = p)
    (hown : ∀ t ∈ tells, AsksOwn p t.message) {w w' : World} (htick : w'.tick = w.tick)
    (hview : SameView env p w.db.toTables w'.db.toTables) :
    (runEach (handleTell env nameForId) tells w').1 =
        (runEach (handleTell env nameForId) tells w).1 ∧
      Alike env p w.log w'.log (runEach (handleTell env nameForId) tells w).2
        (runEach (handleTell env nameForId) tells w').2 := by
  have halike : Alike env p w.log w'.log w w' := ⟨htick, hview, [], by simp, by simp⟩
  refine runEach_oblivious (fun tell htell => ?_) halike
  have hplayer := hfrom tell htell
  have hasks := hown tell htell
  rw [← hplayer] at hasks ⊢
  exact oblivious_handleTell hasks

def otherPlayers : Db where
  toTables :=
    { users := [⟨"carol", true⟩, ⟨"alice", false⟩]
      watch := [⟨1, "Ring", 10, none, 0, none, false⟩]
      userActions := [⟨"carol", "register", none, 0⟩]
      settings := [⟨"Enabled", "true", .bool⟩] }
  sound := by constructor <;> simp [Keyed, Refers]

theorem alice_sees_no_carol :
    (runEach (handleTell Env.calm fun _ => some "alice")
        [⟨7, "market watchlist"⟩, ⟨7, "market unregister confirm"⟩] { db := otherPlayers }).1 =
      (runEach (handleTell Env.calm fun _ => some "alice")
        [⟨7, "market watchlist"⟩, ⟨7, "market unregister confirm"⟩]
        { db := ChatIsolation.twoPlayers }).1 := by
  have hview : SameView Env.calm "alice" ChatIsolation.twoPlayers.toTables
      otherPlayers.toTables := by
    refine ⟨rfl, rfl, rfl, rfl, rfl, fun tick => ?_, rfl⟩
    constructor <;> rintro ⟨k, hk, _⟩ <;> cases hk
  refine (@replies_blind_to_others Env.calm (fun _ => some "alice") "alice" _ ?_ ?_
    { db := ChatIsolation.twoPlayers } { db := otherPlayers } rfl hview).1
  · intro t ht
    rfl
  · intro t ht gs hselect
    rcases List.mem_cons.mp ht with rfl | ht
    · have hname : selectCommand "market watchlist" = some (.watchlist, []) := rfl
      rw [hname] at hselect
      cases hselect
    · rw [List.mem_singleton.mp ht] at hselect
      have hname : selectCommand "market unregister confirm" =
          some (.unregister, [(1, "confirm")]) := rfl
      rw [hname] at hselect
      cases hselect

end AoMarket.ReplySecrecy
