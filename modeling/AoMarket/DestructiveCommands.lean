import AoMarket.ChatWrites
import AoMarket.CommandShapes

/-!
What a message can destroy when its last word is not `confirm`. The groups of a
confirmable command then do not confirm it, the other commands write no deletes, and
the numbers an unwatch command deletes are numerals of the message. So no row of the
five tables is lost, no key is revoked but one that is replaced, and a subscription is
lost only where the message names its item.
-/

namespace AoMarket.DestructiveCommands

open Coroutine PyText PyNumber Regex Relational Models Database Environment Commands
open Writes ServiceWrites ChatWrites Pieces CommandWords CommandShapes

def EndsInConfirm (msg : String) : Prop :=
  ∃ last, (words msg.toList).getLast? = some last ∧ lower last = "confirm"

def Generates (msg : String) : Prop :=
  ∃ cmd args, words msg.toList = cmd :: args ∧ args.map foldWord = ["apikey", "generate"]

def UnwatchNames (py : Runtime) (msg : String) (aoid : ℤ) : Prop :=
  (∃ cmd verb args, words msg.toList = cmd :: verb :: args ∧ foldWord verb = "unwatch") ∧
    ∃ n ∈ numerals msg.toList, parseInt py.decimal n = some aoid

/-- No row is lost; the columns other than the key may change. -/
structure Undestroyed (py : Runtime) (player msg : String) (db db' : Tables) : Prop where
  watch : (db.watch.map MarketWatch.aoid).Sublist (db'.watch.map MarketWatch.aoid)
  users : db.users.Sublist db'.users
  alerts : db.pendingAlerts.Sublist db'.pendingAlerts
  actions : db.userActions.Sublist db'.userActions
  apiKeys : ∀ k ∈ db.apiKeys, k ∈ db'.apiKeys ∨
    (Generates msg ∧ k.player = player ∧ k.revokedAt = none ∧
      ∃ now, { k with revokedAt := some now } ∈ db'.apiKeys)
  subscriptions : ∀ s ∈ db.subscriptions, s.key ∈ db'.subscriptions.map MarketSubscription.key ∨
    (s.player = player ∧ UnwatchNames py msg s.aoid)

section Frame
variable {py : Runtime} {player msg : String}

theorem Undestroyed.refl (db : Tables) : Undestroyed py player msg db db where
  watch := List.Sublist.refl _
  users := List.Sublist.refl _
  alerts := List.Sublist.refl _
  actions := List.Sublist.refl _
  apiKeys _ hk := Or.inl hk
  subscriptions _ hs := Or.inl (List.mem_map_of_mem hs)

theorem Undestroyed.trans {a b c : Tables} (hab : Undestroyed py player msg a b)
    (hbc : Undestroyed py player msg b c) : Undestroyed py player msg a c where
  watch := hab.watch.trans hbc.watch
  users := hab.users.trans hbc.users
  alerts := hab.alerts.trans hbc.alerts
  actions := hab.actions.trans hbc.actions
  apiKeys k hk := by
    rcases hab.apiKeys k hk with hkept | ⟨hgen, hplayer, hactive, now, hrevoked⟩
    · exact hbc.apiKeys k hkept
    · right
      refine ⟨hgen, hplayer, hactive, now, ?_⟩
      -- a key that is revoked is not revoked again
      rcases hbc.apiKeys _ hrevoked with hkept | ⟨_, _, hnone, _⟩
      · exact hkept
      · cases hnone
  subscriptions s hs := by
    rcases hab.subscriptions s hs with hkept | hgone
    · obtain ⟨s', hs', hkey⟩ := List.mem_map.mp hkept
      have hplayer : s'.player = s.player := congrArg Prod.fst hkey
      have haoid : s'.aoid = s.aoid := congrArg Prod.snd hkey
      have hlater := hbc.subscriptions s' hs'
      rwa [hkey, hplayer, haoid] at hlater
    · exact Or.inr hgone

def Harmless (py : Runtime) (player msg : String) : Write → Prop
  | .insertUser _ | .insertAction | .upsertWatch _ | .createKey _ | .insertSubscription _ _
  | .updateFilter _ _ => True
  | .revokeKeys q => q = player ∧ Generates msg
  | .deleteSubscription q aoid => q = player ∧ UnwatchNames py msg aoid
  | _ => False

/-- A harmless write loses no row. -/
theorem undestroyed_of_effect {op : Write} {db db' : Db} {note : List Event}
    (h : Effect op db db' note) (hop : Harmless py player msg op) :
    Undestroyed py player msg db.toTables db'.toTables := by
  have hrefl : Undestroyed py player msg db.toTables db.toTables := Undestroyed.refl db.toTables
  cases h with
  | insertUser _ h =>
    rw [Db.insertUser_eq_some h]
    exact { hrefl with users := List.sublist_append_left _ _ }
  | insertWatch row _ h =>
    rw [(Db.insertWatch_eq_some h).2]
    exact { hrefl with watch := (List.sublist_append_left _ _).map _ }
  | updateWatch _ aoid f hf _ =>
    have haoids := Db.aoids_updateWatch db (fun r => r.aoid == aoid) f hf
    exact { hrefl with watch := by rw [haoids] }
  | insertSubscription row h =>
    rw [Db.insertSubscription_eq_some h]
    refine { hrefl with subscriptions := fun s hs => Or.inl ?_ }
    exact List.mem_map_of_mem (List.mem_append_left _ hs)
  | deleteSubscription _ q aoid =>
    obtain ⟨rfl, hnamed⟩ := hop
    refine { hrefl with subscriptions := fun s hs => ?_ }
    by_cases hkey : s.key = (q, aoid)
    · right
      have hplayer : s.player = q := congrArg Prod.fst hkey
      have haoid : s.aoid = aoid := congrArg Prod.snd hkey
      rw [haoid]
      exact ⟨hplayer, hnamed⟩
    · left
      apply List.mem_map_of_mem
      exact mem_deleteRows.mpr ⟨hs, by simpa using hkey⟩
  | updateFilter _ q aoid f hf =>
    refine { hrefl with subscriptions := fun s hs => Or.inl ?_ }
    have hkeys : (updateRows (fun r => r.key == (q, aoid)) f db.subscriptions).map
        MarketSubscription.key = db.subscriptions.map MarketSubscription.key :=
      map_updateRows _ hf
    show s.key ∈ (updateRows _ f db.subscriptions).map MarketSubscription.key
    rw [hkeys]
    exact List.mem_map_of_mem hs
  | insertAction _ row =>
    exact { hrefl with actions := List.sublist_append_left _ _ }
  | createKey _ _ _ _ h =>
    rw [Db.insertApiKey_eq_some h]
    exact { hrefl with apiKeys := fun k hk => Or.inl (List.mem_append_left _ hk) }
  | revokeKeys _ q now =>
    obtain ⟨rfl, hgen⟩ := hop
    refine { hrefl with apiKeys := fun k hk => ?_ }
    have hrow : (if (k.player == q && AuthService.activeKey k) = true then
        { k with revokedAt := some now } else k) ∈ updateRows
          (fun r => r.player == q && AuthService.activeKey r)
          (fun r => { r with revokedAt := some now }) db.apiKeys :=
      List.mem_map.mpr ⟨k, hk, rfl⟩
    by_cases hheld : (k.player == q && AuthService.activeKey k) = true
    · right
      obtain ⟨hplayer, hactive⟩ := Bool.and_eq_true_iff.mp hheld
      rw [if_pos hheld] at hrow
      exact ⟨hgen, by simpa using hplayer, by simpa [AuthService.activeKey] using hactive, now, hrow⟩
    · left
      rw [if_neg hheld] at hrow
      exact hrow
  | _ => exact hop.elim

end Frame

/-! The words of the message and the groups -/

section Groups
variable {msg : String} {gs : Groups} {name : Command}

/-- Without the word at its end a message confirms nothing. -/
theorem not_confirmed {command args : List String} (h : Confirmable command args gs)
    {cmd : String} (hwords : words msg.toList = cmd :: args) (hmsg : ¬ EndsInConfirm msg) :
    confirmed gs = false := by
  rcases h with ⟨_, rfl⟩ | ⟨w, _, hlast, rfl⟩
  · rfl
  · have hlower : lower w ≠ "confirm" := by
      intro hw
      refine hmsg ⟨w, ?_, hw⟩
      rw [hwords, List.getLast?_cons, hlast]
      rfl
    have htext : textOf [(1, w)] 1 = w := rfl
    rw [confirmed, htext, beq_eq_false_iff_ne]
    exact hlower

/-- The number of an unwatch message is one of its numerals. -/
theorem unwatchNames_of_read {py : Runtime} {aoid : ℤ} {n : String}
    (hread : Reads msg.toList gs .unwatch) (hn : n = textOf gs 1)
    (haoid : parseInt py.decimal n = some aoid) : UnwatchNames py msg aoid := by
  obtain ⟨cmd, args, hwords, _, v, n', rfl, hv, hnumber, rfl⟩ := hread
  have hsame : n = n' := hn
  rw [hsame] at haoid
  refine ⟨⟨cmd, v, [n'], hwords, hv⟩, n', ?_, haoid⟩
  rw [numerals_words, List.mem_flatMap]
  refine ⟨n', ?_, ?_⟩
  · rw [hwords]
    simp
  · rw [hnumber.numerals]
    exact List.mem_singleton_self n'

/-- The numbers that the bulk command captures stand in the message. -/
theorem unwatchNames_of_bulk {py : Runtime} {aoid : ℤ} {n : String}
    (hread : Reads msg.toList gs .unwatchBulk) (hn : n ∈ splitNumbers (strip (textOf gs 1)))
    (haoid : parseInt py.decimal n = some aoid) : UnwatchNames py msg aoid := by
  obtain ⟨cmd, args, hwords, _, v, t, rfl, hv, rfl⟩ := hread
  have htext : textOf [(1, String.ofList t.text)] 1 = String.ofList t.text := rfl
  rw [htext, splitNumbers_text, ← numerals_text, numerals_words] at hn
  obtain ⟨w, hw, hnumeral⟩ := List.mem_flatMap.mp hn
  refine ⟨⟨cmd, v, words t.text, hwords, hv⟩, n, ?_, haoid⟩
  rw [numerals_words, List.mem_flatMap]
  refine ⟨w, ?_, hnumeral⟩
  rw [hwords]
  exact List.mem_cons_of_mem cmd (List.mem_cons_of_mem v hw)

end Groups

/-! The handlers -/

section Handlers
variable {env : Env} {player msg : String} {gs : Groups} {name : Command}

/-- The other commands write nothing that harms. -/
theorem harmless_of_command {py : Runtime} {op : Write} (hread : Reads msg.toList gs name)
    (hmsg : ¬ EndsInConfirm msg) (hname : name ≠ .unwatch ∧ name ≠ .unwatchBulk)
    (hop : CommandWrites player name gs op) : Harmless py player msg op := by
  obtain ⟨cmd, args, hwords, _, hshape⟩ := hread
  have hunconfirmed : ∀ {command}, Confirmable command args gs → ¬ confirmed gs = true := by
    intro command h
    rw [not_confirmed h hwords hmsg]
    exact Bool.false_ne_true
  cases name with
  | register =>
    rcases hop with hop | hop
    · rw [hop]
      trivial
    · rw [hop]
      trivial
  | unregister | untrackAll | apikeyRevoke | unwatchAll =>
    exact absurd hop.1 (hunconfirmed hshape)
  | apikeyGenerate =>
    rcases hop with hop | hop | hop
    · rw [hop]
      trivial
    · rw [hop]
      exact ⟨rfl, cmd, args, hwords, hshape⟩
    · rw [hop]
      trivial
  | filterPrice | filterQl | filterClear =>
    obtain ⟨aoid, hop⟩ := hop
    rw [hop]
    trivial
  | unwatch => exact absurd rfl hname.1
  | unwatchBulk => exact absurd rfl hname.2
  | watchAoid =>
    rcases hop with hop | ⟨aoid, hop | hop⟩
    · rw [hop]
      trivial
    · rw [hop]
      trivial
    · rw [hop]
      trivial
  | overview =>
    obtain ⟨aoid, hop⟩ := hop
    rw [hop]
    trivial
  | _ => exact hop.elim

variable {A : Write → Prop} {β : Type}

/-- What follows the reading of a number runs on what was read. -/
theorem keeps_readAoid {digits : String} {f : ℤ → M β}
    (h : ∀ aoid, parseInt env.py.decimal digits = some aoid → Keeps A (f aoid)) :
    Keeps A (parseAoid env digits >>= f) := by
  unfold parseAoid
  cases hparse : parseInt env.py.decimal digits with
  | none => exact Coro.Frames.throw _
  | some aoid => exact h aoid hparse

theorem keeps_readAoids {texts : List String} {f : List ℤ → M β}
    (h : ∀ aoids, (∀ a ∈ aoids, ∃ n ∈ texts, parseInt env.py.decimal n = some a) →
      Keeps A (f aoids)) : Keeps A (texts.mapM (parseAoid env) >>= f) := by
  induction texts generalizing f with
  | nil => exact h [] fun a ha => absurd ha List.not_mem_nil
  | cons n texts ih =>
    rw [List.mapM_cons, bind_assoc]
    refine keeps_readAoid fun aoid haoid => ?_
    rw [bind_assoc]
    refine ih fun aoids haoids => ?_
    rw [pure_bind]
    refine h (aoid :: aoids) fun a ha => ?_
    rcases List.mem_cons.mp ha with rfl | ha
    · exact ⟨n, List.mem_cons_self, haoid⟩
    · obtain ⟨n', hn', ha⟩ := haoids a ha
      exact ⟨n', List.mem_cons_of_mem n hn', ha⟩

/-- A command whose message confirms nothing writes only what is harmless. -/
theorem keeps_harmless (hread : Reads msg.toList gs name) (hmsg : ¬ EndsInConfirm msg) :
    Keeps (Harmless env.py player msg) (Commands.dispatch env player name gs) := by
  by_cases hname : name ≠ .unwatch ∧ name ≠ .unwatchBulk
  · apply Coro.Frames.mono (keeps_dispatch name gs)
    exact fun w w' hw => hw.mono fun op hop => harmless_of_command hread hmsg hname hop
  · rw [not_and_or, not_not, not_not] at hname
    rcases hname with rfl | rfl
    · refine keeps_readAoid fun aoid haoid => ?_
      refine Coro.Frames.bind (keeps_unsubscribe ?_ trivial) fun _ => Coro.Frames.pure _
      exact ⟨rfl, unwatchNames_of_read hread rfl haoid⟩
    · refine keeps_readAoids fun aoids haoids => ?_
      refine Coro.Frames.bind (keeps_unsubscribeBulk trivial ?_) fun _ => Coro.Frames.pure _
      intro a ha
      obtain ⟨n, hn, haoid⟩ := haoids a ha
      exact ⟨rfl, unwatchNames_of_bulk hread hn haoid⟩

theorem keeps_unconfirmed (hmsg : ¬ EndsInConfirm msg) :
    Keeps (Harmless env.py player msg) (handleCommand env player msg) :=
  keeps_selected fun _ _ hsel => keeps_harmless (reads_of_select hsel) hmsg

end Handlers

/-- A message that does not end in `confirm` destroys nothing but what it names: one
await at a time, whatever runs in between, and over a whole run from any state. -/
theorem unconfirmed_spares (env : Env) (player msg : String) (hmsg : ¬ EndsInConfirm msg) :
    (handleCommand env player msg).Frames (fun w w' =>
      Undestroyed env.py player msg w.db.toTables w'.db.toTables) ∧
    ∀ w, Undestroyed env.py player msg w.db.toTables
      ((handleCommand env player msg).run w).2.db.toTables := by
  have hkeeps : Keeps (Harmless env.py player msg) (handleCommand env player msg) :=
    keeps_unconfirmed hmsg
  constructor
  · apply Coro.Frames.mono hkeeps
    intro w w' h
    obtain ⟨_, note, _, ⟨hdb, _⟩ | ⟨op, hop, heffect⟩⟩ := h
    · rw [hdb]
      exact Undestroyed.refl w.db.toTables
    · exact undestroyed_of_effect heffect hop
  · exact hkeeps.run_rel (fun db => Undestroyed.refl db.toTables) (fun hab hbc => hab.trans hbc)
      fun op db db' note hop heffect => undestroyed_of_effect heffect hop

def twoWatched : Db where
  toTables :=
    { users := [⟨"bob", false⟩]
      watch := [⟨7, "Ring", 10, none, 0, none, false⟩, ⟨8, "Belt", 20, none, 0, none, false⟩]
      subscriptions := [{ player := "bob", aoid := 7, createdAt := 0 },
        { player := "bob", aoid := 8, createdAt := 0 }]
      settings := [⟨"Enabled", "true", .bool⟩] }
  sound := by constructor <;> simp [Keyed, Refers, MarketSubscription.key]

/-- Bob's message names item 7, so the row of item 8 is still there. -/
theorem bob_keeps_unnamed : ¬ EndsInConfirm "market unwatch 7" ∧
    Undestroyed Env.calm.py "bob" "market unwatch 7" twoWatched.toTables
      ((handleCommand Env.calm "bob" "market unwatch 7").run { db := twoWatched }).2.db.toTables := by
  have hlast : (words "market unwatch 7".toList).getLast? = some "7" := by decide +kernel
  have hmsg : ¬ EndsInConfirm "market unwatch 7" := by
    intro h
    obtain ⟨last, hsome, hlower⟩ := h
    rw [hlast] at hsome
    obtain rfl := Option.some.inj hsome
    exact absurd hlower (by decide)
  exact ⟨hmsg, (unconfirmed_spares Env.calm "bob" "market unwatch 7" hmsg).2 { db := twoWatched }⟩

example : ((handleCommand Env.calm "bob" "market unwatch 7").run
    { db := twoWatched }).2.db.subscriptions.map MarketSubscription.key = [("bob", 8)] := by rfl

end AoMarket.DestructiveCommands
