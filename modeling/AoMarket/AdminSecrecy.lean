import AoMarket.ChatIsolation
import AoMarket.HttpAccess

/-!
What a player who is no admin learns from the `!settings` command. The admin check comes
before anything the command reads, and no market pattern begins with an exclamation mark,
so the message is answered like any other that nothing recognises.
-/

namespace AoMarket.AdminSecrecy

open Coroutine Relational Models Database Regex Environment SettingsRepo Commands AdminCommands
  Runner Writes ServiceWrites ChatWrites ChatIsolation HttpAccess

def BeginsSettings (msg : String) : Prop :=
  ∃ name rest, msg.toList = name ++ rest ∧ name.map foldLetter = "!settings".toList

/-- No pattern of either table matches. -/
def Unrecognised (msg : String) : Prop := selectAdmin msg = none ∧ selectCommand msg = none

def ordinaryReply (env : Env) : M String := do
  if !(← getBool env "Enabled") then
    return "The Market module is currently disabled."
  return usage

section Messages
variable {msg : String}

theorem BeginsSettings.head (h : BeginsSettings msg) :
    ∃ c rest, msg.toList = c :: rest ∧ foldLetter c = '!' := by
  obtain ⟨name, rest, hmsg, hname⟩ := h
  have hlist : "!settings".toList = '!' :: "settings".toList := by decide
  rw [hlist] at hname
  cases name with
  | nil => cases hname
  | cons c cs =>
    rw [List.map_cons] at hname
    exact ⟨c, cs ++ rest, hmsg, (List.cons.inj hname).1⟩

/-- Every market pattern begins with an m. -/
theorem selectCommand_settings (h : BeginsSettings msg) : selectCommand msg = none := by
  obtain ⟨c, rest, hmsg, hc⟩ := h.head
  cases hsel : selectCommand msg with
  | none => rfl
  | some r =>
    obtain ⟨p, hp, gs, hgs⟩ := first_match hsel
    obtain ⟨c', rest', hmsg', hm⟩ := (starts_patterns hp).matchStart hgs
    rw [hmsg] at hmsg'
    obtain ⟨rfl, -⟩ := List.cons.inj hmsg'
    have hm' : foldLetter c = 'm' := eq_of_beq hm
    rw [hc] at hm'
    exact absurd hm' (by decide)

end Messages

section Replies
variable {env : Env} {player msg : String} {w : World}

theorem handleCommand_unmatched (h : selectCommand msg = none) :
    handleCommand env player msg = ordinaryReply env := by
  unfold handleCommand ordinaryReply
  rw [h]

theorem replyTo_unrecognised (h : Unrecognised msg) :
    replyTo env player msg = ordinaryReply env := by
  rw [← @handleCommand_unmatched env player msg h.2]
  unfold replyTo handleAdminCommand
  rw [h.1]
  rfl

/-- Who is no admin is told so, unless the lookup of the user fails. -/
theorem run_isAdminPlayer_plain (hplain : ¬ IsAdmin env w.db player) :
    (AuthService.isAdminPlayer env player).run w =
      (match env.dbFault w.tick with
        | some e => .error e
        | none => (text env player).map fun _ => false, w.next) := by
  have hreads : (MarketRepo.getUser env player).run w =
      (match env.dbFault w.tick with
        | some e => .error e
        | none => (text env player).map fun _ => lookup MarketUser.player player w.db.users,
        w.next) := by
    unfold MarketRepo.getUser query statement
    rw [Coro.run_act]
    cases env.dbFault w.tick with
    | some e => rfl
    | none =>
      cases text env player with
      | error e => rfl
      | ok u => simp [bind, Except.bind, Except.map, pure, Except.pure, World.next]
  unfold AuthService.isAdminPlayer
  rw [if_neg fun howner => hplain (Or.inl howner), Coro.run_bind, hreads]
  cases env.dbFault w.tick with
  | some e => rfl
  | none =>
    cases text env player with
    | error e => rfl
    | ok u =>
      dsimp only [Except.map]
      cases hrow : lookup MarketUser.player player w.db.users with
      | none => rfl
      | some user =>
        obtain ⟨hmem, hname⟩ := (lookup_eq_some w.db.sound.user_key).mp hrow
        cases hadmin : user.isAdmin with
        | false => simp [hadmin]
        | true => exact absurd (Or.inr ⟨user, hmem, hname, hadmin⟩) hplain

/-- A player who is no admin gets the ordinary reply, one lookup later if the message is an
admin command. -/
theorem run_replyTo_plain (hplain : ¬ IsAdmin env w.db player) (hmsg : BeginsSettings msg) :
    (replyTo env player msg).run w =
      if selectAdmin msg = none then (ordinaryReply env).run w else
        match env.dbFault w.tick, text env player with
        | some e, _ => (.error e, w.next)
        | none, .error e => (.error e, w.next)
        | none, .ok _ => (ordinaryReply env).run w.next := by
  have hcommand : handleCommand env player msg = ordinaryReply env :=
    handleCommand_unmatched (selectCommand_settings hmsg)
  unfold replyTo handleAdminCommand
  cases hsel : selectAdmin msg with
  | none =>
    rw [if_pos rfl, ← hcommand]
    rfl
  | some r =>
    rw [if_neg (by simp)]
    dsimp only
    rw [Coro.run_bind, Coro.run_bind, run_isAdminPlayer_plain hplain]
    cases env.dbFault w.tick with
    | some e => rfl
    | none =>
      cases text env player with
      | error e => rfl
      | ok u =>
        rw [← hcommand]
        rfl

/-- The ordinary reply by what the server and the Enabled setting are. -/
def ordinaryOutcome : Option PyErr → Except PyErr SettingValue → Except PyErr String
  | some e, _ => .error e
  | none, .error e => .error e
  | none, .ok (.bool true) => .ok usage
  | none, .ok (.bool false) => .ok "The Market module is currently disabled."
  | none, .ok _ => .error .assertion

/-- The ordinary reply in one tick, by what the server and the setting are then. -/
theorem run_ordinaryReply (w : World) : (ordinaryReply env).run w =
    (ordinaryOutcome (env.dbFault w.tick) (readSetting env w.db "Enabled"), w.next) := by
  unfold ordinaryReply getBool
  rw [Coro.run_bind, Coro.run_bind, run_get]
  cases env.dbFault w.tick with
  | some e => rfl
  | none =>
    cases readSetting env w.db "Enabled" with
    | error e => rfl
    | ok v =>
      cases v with
      | bool on => cases on <;> rfl
      | _ => rfl

/-- Two ordinary replies are the same text, however they came about. -/
theorem ordinaryOutcome_ok {fault fault' : Option PyErr} {setting : Except PyErr SettingValue}
    {r r' : String} (h : ordinaryOutcome fault setting = .ok r)
    (h' : ordinaryOutcome fault' setting = .ok r') : r = r' := by
  cases fault with
  | some e => cases h
  | none =>
    cases fault' with
    | some e => cases h'
    | none =>
      rw [h] at h'
      exact Except.ok.inj h'

/-- Answering changes no row. -/
theorem replyTo_plain_db (hplain : ¬ IsAdmin env w.db player) (hmsg : BeginsSettings msg) :
    ((replyTo env player msg).run w).2.db = w.db := by
  rw [run_replyTo_plain hplain hmsg]
  by_cases hsel : selectAdmin msg = none
  · rw [if_pos hsel, run_ordinaryReply]
    rfl
  · rw [if_neg hsel]
    cases env.dbFault w.tick with
    | some e => rfl
    | none =>
      cases text env player with
      | error e => rfl
      | ok u =>
        dsimp only
        rw [run_ordinaryReply]
        rfl

/-- A reply that is given is the ordinary one, by the setting alone. -/
theorem replyTo_plain_ok (hplain : ¬ IsAdmin env w.db player) (hmsg : BeginsSettings msg)
    {r : String} (hreply : ((replyTo env player msg).run w).1 = .ok r) :
    ∃ fault, ordinaryOutcome fault (readSetting env w.db "Enabled") = .ok r := by
  rw [run_replyTo_plain hplain hmsg] at hreply
  by_cases hsel : selectAdmin msg = none
  · rw [if_pos hsel, run_ordinaryReply] at hreply
    exact ⟨_, hreply⟩
  · rw [if_neg hsel] at hreply
    generalize env.dbFault w.tick = fault at hreply
    generalize text env player = named at hreply
    cases fault with
    | some e => cases hreply
    | none =>
      cases named with
      | error e => cases hreply
      | ok u =>
        dsimp only at hreply
        rw [run_ordinaryReply] at hreply
        exact ⟨_, hreply⟩

end Replies

/-- A message that begins with `!settings` has one outcome in all states that agree on the
Enabled setting and in which its sender is no admin, its reply is the one to any message that
nothing recognises, and the states are left as they are. With the server up and able to look
the sender up, the outcomes are the same also where the setting cannot be read. -/
theorem settings_command_invisible {env : Env} {player msg : String} {w₁ w₂ : World}
    (hmsg : BeginsSettings msg) (htick : w₁.tick = w₂.tick)
    (hagree : readSetting env w₁.db "Enabled" = readSetting env w₂.db "Enabled")
    (h₁ : ¬ IsAdmin env w₁.db player) (h₂ : ¬ IsAdmin env w₂.db player) :
    ((replyTo env player msg).run w₁).1 = ((replyTo env player msg).run w₂).1 ∧
      (∀ other, Unrecognised other →
        (∀ r r', ((replyTo env player msg).run w₁).1 = .ok r →
          ((replyTo env player other).run w₂).1 = .ok r' → r = r') ∧
        ((∀ t, w₁.tick ≤ t → env.dbFault t = none) → env.storable player = true →
          ((replyTo env player msg).run w₁).1 = ((replyTo env player other).run w₂).1)) ∧
      ∀ w ∈ [w₁, w₂], ((replyTo env player msg).run w).2.db = w.db ∧
        ∀ nameForId senderId, playerName nameForId senderId = player →
          ((handleTell env nameForId ⟨senderId, msg⟩).run w).2.db = w.db := by
  refine ⟨?_, fun other hother => ⟨fun r r' hr hr' => ?_, fun hup hname => ?_⟩, fun w hw => ?_⟩
  · rw [run_replyTo_plain h₁ hmsg, run_replyTo_plain h₂ hmsg]
    simp only [run_ordinaryReply, hagree, htick, World.next]
    by_cases hsel : selectAdmin msg = none
    · rw [if_pos hsel, if_pos hsel]
    · rw [if_neg hsel, if_neg hsel]
      cases env.dbFault w₂.tick with
      | some e => rfl
      | none => cases text env player <;> rfl
  · obtain ⟨fault, houtcome⟩ := replyTo_plain_ok h₁ hmsg hr
    rw [replyTo_unrecognised hother, run_ordinaryReply, ← hagree] at hr'
    exact ordinaryOutcome_ok houtcome hr'
  · have hnamed : text env player = .ok () := if_pos hname
    have hfault : env.dbFault w₁.tick = none := hup _ (le_refl _)
    have hnext : env.dbFault w₁.next.tick = none := hup _ (Nat.le_succ _)
    rw [replyTo_unrecognised hother, run_replyTo_plain h₁ hmsg]
    simp only [run_ordinaryReply, ← htick, ← hagree, hfault, hnamed, hnext]
    by_cases hsel : selectAdmin msg = none
    · rw [if_pos hsel]
    · rw [if_neg hsel]
      rfl
  · have hplain : ¬ IsAdmin env w.db player := by
      rcases List.mem_cons.mp hw with rfl | hw
      · exact h₁
      · rw [List.mem_singleton.mp hw]
        exact h₂
    refine ⟨replyTo_plain_db hplain hmsg, fun nameForId senderId hsender => ?_⟩
    unfold handleTell
    rw [run_bind_db (fun reply => keeps_sendReply senderId reply) w, hsender]
    exact replyTo_plain_db hplain hmsg

/-- Alice asks for a setting with and without the other settings in the table. -/
theorem alice_sees_usage :
    ((replyTo Env.calm "alice" "!Settings ApiUrl").run { db := twoPlayers }).1 = .ok usage ∧
      ((replyTo Env.calm "alice" "!Settings ApiUrl").run
        { db := twoPlayers.seedSetting ⟨"ApiUrl", "https://gmi.nadybot.org", .str⟩ }).1 = .ok usage := by
  have hmsg : BeginsSettings "!Settings ApiUrl" :=
    ⟨"!Settings".toList, " ApiUrl".toList, by decide, by decide⟩
  have hadmin : ¬ IsAdmin Env.calm twoPlayers "alice" := by
    unfold IsAdmin
    decide
  have hsame := @settings_command_invisible Env.calm "alice" "!Settings ApiUrl"
    { db := twoPlayers }
    { db := twoPlayers.seedSetting ⟨"ApiUrl", "https://gmi.nadybot.org", .str⟩ }
    hmsg rfl (by decide) hadmin hadmin
  have hfirst : ((replyTo Env.calm "alice" "!Settings ApiUrl").run { db := twoPlayers }).1 =
      .ok usage := by
    rw [(hsame.2.1 "hello" ⟨by decide +kernel, by decide +kernel⟩).2 (fun _ _ => rfl)
      (by decide +kernel)]
    decide +kernel
  exact ⟨hfirst, hsame.1.symm.trans hfirst⟩

end AoMarket.AdminSecrecy
