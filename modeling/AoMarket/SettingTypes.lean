import AoMarket.HttpAccess

/-!
Settings as typed rows. The seeds and the chat command write values of the row's
type, so what they write reads back; the HTTP route hands any value of the schema to
the same serializer, and `Suits` is what that value has to satisfy.
-/

namespace AoMarket.SettingTypes

open Coroutine Relational Models Database PyText Environment SettingsRepo AdminCommands
open Writes ServiceWrites ChatWrites HttpRoutes

def typeOf : SettingValue → ValueType
  | .bool _ => .bool
  | .int _ => .int
  | .float _ => .float
  | .str _ => .str

/-- Every row is a default's, with its type, and reads back as a value of the type. -/
structure WellTyped (py : Runtime) (settings : List Setting) : Prop where
  declared : ∀ row ∈ settings, ∃ d ∈ defaultSettings, d.key = row.key ∧ d.valueType = row.valueType
  readable : ∀ row ∈ settings, ∃ v, deserialize py row.value row.valueType = .ok v ∧
    typeOf v = row.valueType

/-- The text of the value parses as the type. -/
def Suits (py : Runtime) : ValueType → SettingValue → Prop
  | .bool, _ | .str, _ | .int, .int _ => True
  | .int, .str s => parseInt py.decimal s ≠ none
  | .int, _ => False
  | .float, v => ∃ s, v.toText py = .ok s ∧ py.parseFloat s ≠ none

section Values
variable {py : Runtime}

theorem defaults_not_float {d : SettingDefault} (h : d ∈ defaultSettings) : d.valueType ≠ .float := by
  have hall : ∀ e ∈ defaultSettings, e.valueType ≠ .float := by decide
  exact hall d h

theorem deserialize_typeOf {s : String} {t : ValueType} {v : SettingValue}
    (h : deserialize py s t = .ok v) : typeOf v = t := by
  cases t with
  | bool => rw [← Except.ok.inj h, typeOf]
  | int =>
    unfold deserialize at h
    generalize parseInt py.decimal s = parsed at h
    cases parsed with
    | none => exact absurd h (by simp)
    | some n => rw [← Except.ok.inj h, typeOf]
  | float =>
    unfold deserialize at h
    generalize py.parseFloat s = parsed at h
    cases parsed with
    | none => exact absurd h (by simp)
    | some x => rw [← Except.ok.inj h, typeOf]
  | str => rw [← Except.ok.inj h, typeOf]

/-- What was written for a suitable value reads back. -/
theorem deserialize_serialize {t : ValueType} {v : SettingValue} {s : String}
    (hsuits : Suits py t v) (h : serialize py v t = .ok s) : ∃ v', deserialize py s t = .ok v' := by
  cases t with
  | bool => exact ⟨_, rfl⟩
  | str => exact ⟨_, rfl⟩
  | int =>
    have hparse : ∃ n, parseInt py.decimal s = some n := by
      cases v with
      | bool b => exact hsuits.elim
      | float x => exact hsuits.elim
      | int n =>
        have htext : (if (toString n.natAbs).length ≤ maxStrDigits then Except.ok (toString n)
            else Except.error (PyErr.value tooManyDigits)) = .ok s := h
        by_cases hlen : (toString n.natAbs).length ≤ maxStrDigits
        · rw [if_pos hlen] at htext
          exact ⟨n, Except.ok.inj htext ▸ parseInt_toString py hlen⟩
        · rw [if_neg hlen] at htext
          exact absurd htext (by simp)
      | str text =>
        have htext : text = s := Except.ok.inj h
        rw [← htext]
        exact Option.ne_none_iff_exists'.mp hsuits
    obtain ⟨n, hn⟩ := hparse
    exact ⟨.int n, by rw [deserialize, hn]⟩
  | float =>
    obtain ⟨text, htext, hparse⟩ := hsuits
    have hs : s = text := by
      have hsame := htext.symm.trans h
      cases hsame
      rfl
    obtain ⟨x, hx⟩ := Option.ne_none_iff_exists'.mp hparse
    exact ⟨.float x, by rw [deserialize, hs, hx]⟩

theorem suits_of_typeOf {v : SettingValue} (h : typeOf v ≠ .float) : Suits py (typeOf v) v := by
  cases v with
  | float x => exact absurd rfl h
  | _ => trivial

theorem coerceTo_typeOf {key raw : String} {current v : SettingValue}
    (h : coerceTo py key raw current = .ok v) : typeOf v = typeOf current := by
  cases current with
  | bool b =>
    unfold coerceTo at h
    dsimp only at h
    split at h
    · rw [← Except.ok.inj h, typeOf, typeOf]
    · split at h
      · rw [← Except.ok.inj h, typeOf, typeOf]
      · exact absurd h (by simp)
  | int n =>
    unfold coerceTo at h
    generalize parseInt py.decimal raw = parsed at h
    cases parsed with
    | none => exact absurd h (by simp)
    | some m => rw [← Except.ok.inj h, typeOf, typeOf]
  | float x =>
    unfold coerceTo at h
    generalize py.parseFloat raw = parsed at h
    cases parsed with
    | none => exact absurd h (by simp)
    | some y => rw [← Except.ok.inj h, typeOf, typeOf]
  | str s => rw [← Except.ok.inj h, typeOf, typeOf]

end Values

/-! Writes -/

section Writing
variable {env : Env}

/-- A row stays well typed under any text of its type. -/
theorem wellTyped_updateSetting {settings : List Setting} {key text : String} {row : Setting}
    (h : WellTyped env.py settings) (hkey : Keyed Setting.key settings)
    (hrow : lookup Setting.key key settings = some row)
    (hread : ∃ v, deserialize env.py text row.valueType = .ok v) :
    WellTyped env.py
      (updateRows (fun r => r.key == key) (fun r => { r with value := text }) settings) where
  declared r hr := by
    obtain ⟨r', hr', rfl⟩ := List.mem_map.mp hr
    have := h.declared r' hr'
    split <;> exact this
  readable r hr := by
    obtain ⟨r', hr', rfl⟩ := List.mem_map.mp hr
    split
    · next hsel =>
      obtain ⟨hmem, hk⟩ := (lookup_eq_some hkey).mp hrow
      have hsame : r' = row := by
        apply hkey.eq_of_mem hr' hmem
        rw [hk]
        simpa using hsel
      obtain ⟨v, hv⟩ := hread
      rw [hsame]
      exact ⟨v, hv, deserialize_typeOf hv⟩
    · exact h.readable r' hr'

/-- SettingsRepo.set stores the text of the value, whatever the type of the row is: the types
stay if the value suits the row. -/
theorem set_wellTyped {key : String} {value : SettingValue} {w : World}
    (h : WellTyped env.py w.db.settings)
    (hsuits : ∀ row, lookup Setting.key key w.db.settings = some row →
      Suits env.py row.valueType value) :
    WellTyped env.py ((set env key value).run w).2.db.settings := by
  unfold SettingsRepo.set
  rcases hget : (getRow env key).run w with ⟨e | row, w₁⟩
  · have hdb := Keeps.db_of_run (keeps_query Silent.nil) hget
    rwa [Coro.run_bind_error hget, hdb]
  have hdb := Keeps.db_of_run (keeps_query Silent.nil) hget
  rw [Coro.run_bind_ok hget]
  obtain ⟨hread, _⟩ := run_query_eq_ok hget
  obtain ⟨_, _, hread⟩ := except_bind_eq_ok.mp hread
  have hrow : lookup Setting.key key w.db.settings = some row := by
    cases hl : lookup Setting.key key w.db.settings with
    | none =>
      rw [hl] at hread
      cases hread
    | some r =>
      rw [hl] at hread
      cases hread
      rfl
  cases htext : serialize env.py value row.valueType with
  | error e =>
    show WellTyped env.py w₁.db.settings
    rwa [hdb]
  | ok text =>
    rw [Coro.run_bind_ok (Coro.run_ofExcept _ _)]
    have hwritten := wellTyped_updateSetting h w.db.sound.setting_key hrow
      (deserialize_serialize (hsuits row hrow) htext)
    rcases run_statement_cases w₁ with ⟨e, hrun⟩ | ⟨_, u, db, note, hf, hrun⟩
    · rw [hrun]
      show WellTyped env.py w₁.db.settings
      rwa [hdb]
    · rw [hrun]
      obtain ⟨_, _, hf⟩ := except_bind_eq_ok.mp hf
      cases hf
      rw [hdb]
      exact hwritten

/-- What the chat command coerces is a value of the row's type. -/
theorem coerceOrReply_typeOf {key raw : String} {value : SettingValue} {w w' : World}
    (hrun : (coerceOrReply env key raw).run w = (.ok (.inr value), w')) :
    w'.db = w.db ∧ ∃ row, lookup Setting.key key w.db.settings = some row ∧
      typeOf value = row.valueType := by
  unfold coerceOrReply coerceSettingValue at hrun
  rw [Coro.run_handle] at hrun
  simp only [Coro.bind_assoc] at hrun
  rw [Coro.run_bind, run_get] at hrun
  cases hfault : env.dbFault w.tick with
  | some e =>
    rw [hfault] at hrun
    cases e <;> cases hrun
  | none =>
    rw [hfault] at hrun
    unfold readSetting at hrun
    cases htext : text env key with
    | error e =>
      rw [htext] at hrun
      cases e <;> cases hrun
    | ok u =>
      rw [htext] at hrun
      cases hrow : lookup Setting.key key w.db.settings with
      | none =>
        rw [hrow] at hrun
        cases hrun
      | some row =>
        rw [hrow] at hrun
        cases hread : deserialize env.py row.value row.valueType with
        | error e =>
          simp only [bind, Except.bind, hread] at hrun
          cases e <;> cases hrun
        | ok current =>
          simp only [bind, Except.bind, hread] at hrun
          cases hcoerce : coerceTo env.py key raw current with
          | error e =>
            rw [hcoerce] at hrun
            cases e <;> cases hrun
          | ok v =>
            rw [hcoerce] at hrun
            cases hrun
            exact ⟨rfl, row, rfl, (coerceTo_typeOf hcoerce).trans (deserialize_typeOf hread)⟩

/-- A command leaves the rows typed: it writes one value of the row's own type at most. -/
theorem dispatch_wellTyped {name : AdminCommand} {gs : Regex.Groups} {w : World}
    (h : WellTyped env.py w.db.settings) :
    WellTyped env.py ((AdminCommands.dispatch env name gs).run w).2.db.settings := by
  have hread : ∀ key, Keeps (fun _ => False) (get env key) := keeps_get
  cases name with
  | settingsGet =>
    have hkeeps : Keeps (fun _ => False) (AdminCommands.dispatch env .settingsGet gs) :=
      Coro.Frames.bind (hread _) fun _ => Coro.Frames.pure _
    rwa [hkeeps.db_eq w]
  | settingsList =>
    have hkeeps : Keeps (fun _ => False) (AdminCommands.dispatch env .settingsList gs) :=
      Coro.Frames.bind (keeps_query Silent.nil) fun _ => Coro.Frames.pure _
    rwa [hkeeps.db_eq w]
  | settingsSet =>
    simp only [AdminCommands.dispatch]
    generalize (Regex.groupOf gs 1).getD "" = key
    generalize strip ((Regex.groupOf gs 2).getD "") = raw
    rcases hcoerce : (coerceOrReply env key raw).run w with ⟨e | message | value, w₁⟩
    · have hdb := Keeps.db_of_run (keeps_coerceOrReply key raw) hcoerce
      rwa [Coro.run_bind_error hcoerce, hdb]
    · have hdb := Keeps.db_of_run (keeps_coerceOrReply key raw) hcoerce
      rw [Coro.run_bind_ok hcoerce]
      show WellTyped env.py w₁.db.settings
      rwa [hdb]
    · obtain ⟨hdb, row, hrow, htype⟩ := coerceOrReply_typeOf hcoerce
      rw [Coro.run_bind_ok hcoerce]
      have hrest : ∀ u : Unit, Keeps (fun _ => False) (do
          let newValue ← get env key
          return s!"{key} = {newValue.repr env.py}") :=
        fun _ => Coro.Frames.bind (hread key) fun _ => Coro.Frames.pure _
      have hset : WellTyped env.py ((set env key value).run w₁).2.db.settings := by
        apply set_wellTyped
        · rwa [hdb]
        · intro row' hrow'
          rw [hdb, hrow] at hrow'
          cases hrow'
          have hmem := ((lookup_eq_some w.db.sound.setting_key).mp hrow).1
          obtain ⟨d, hd, _, hdtype⟩ := h.declared row hmem
          rw [← htype]
          apply suits_of_typeOf
          rw [htype, ← hdtype]
          exact defaults_not_float hd
      exact (congrArg (fun db => WellTyped env.py db.settings) (run_bind_db hrest w₁)).mpr hset

/-- The chat command coerces to the stored type first, so every row stays well typed. -/
theorem handleAdminCommand_wellTyped {player msg : String} {w : World}
    (h : WellTyped env.py w.db.settings) :
    WellTyped env.py ((handleAdminCommand env player msg).run w).2.db.settings := by
  unfold handleAdminCommand
  split
  · exact h
  · next name gs _ =>
    rcases hadmin : (AuthService.isAdminPlayer env player).run w with ⟨e | admin, w₁⟩
    · have hdb := Keeps.db_of_run (keeps_isAdminPlayer player) hadmin
      rwa [Coro.run_bind_error hadmin, hdb]
    · have hdb := Keeps.db_of_run (keeps_isAdminPlayer player) hadmin
      rw [Coro.run_bind_ok hadmin]
      cases admin with
      | false =>
        show WellTyped env.py w₁.db.settings
        rwa [hdb]
      | true =>
        simp only [Bool.not_true, Bool.false_eq_true, if_false]
        rw [run_bind_db fun _ => Coro.Frames.pure _, dispatchReply, run_handle_db]
        · apply dispatch_wellTyped
          rwa [hdb]
        · intro e
          split
          · exact Coro.Frames.pure _
          · exact Coro.Frames.throw _

end Writing

/-! Seeds -/

section Seeds
variable {env : Env}

def seedRow (py : Runtime) (d : SettingDefault) : Except PyErr Setting := do
  return { key := d.key, value := ← serialize py d.value d.valueType, valueType := d.valueType }

/-- A row that is a default's and reads back. -/
def TypedRow (py : Runtime) (row : Setting) : Prop :=
  (∃ d ∈ defaultSettings, d.key = row.key ∧ d.valueType = row.valueType) ∧
    ∃ v, deserialize py row.value row.valueType = .ok v ∧ typeOf v = row.valueType

/-- Every default is of its own type, and the row seeded for it reads back. -/
theorem seedRow_typed {d : SettingDefault} (hd : d ∈ defaultSettings) {row : Setting}
    (h : seedRow env.py d = .ok row) : TypedRow env.py row ∧ row.key = d.key := by
  have htype : ∀ e ∈ defaultSettings, typeOf e.value = e.valueType := by decide
  obtain ⟨text, htext, hrow⟩ := except_bind_eq_ok.mp h
  rw [← Except.ok.inj hrow]
  have hsuits : Suits env.py d.valueType d.value := by
    have hfloat := defaults_not_float hd
    rw [← htype d hd] at hfloat ⊢
    exact suits_of_typeOf hfloat
  obtain ⟨v, hv⟩ := deserialize_serialize hsuits htext
  exact ⟨⟨⟨d, hd, rfl, rfl⟩, v, hv, deserialize_typeOf hv⟩, rfl⟩

/-- Seeding forgets no key and has a row for each of its own. -/
theorem keys_seedSettings (rows : List Setting) (db : Db) :
    (∀ key ∈ db.settings.map Setting.key,
        key ∈ (rows.foldl Db.seedSetting db).settings.map Setting.key) ∧
      ∀ row ∈ rows, row.key ∈ (rows.foldl Db.seedSetting db).settings.map Setting.key := by
  induction rows generalizing db with
  | nil => exact ⟨fun key hkey => hkey, by simp⟩
  | cons row rest ih =>
    have hone : (∀ key ∈ db.settings.map Setting.key,
          key ∈ (db.seedSetting row).settings.map Setting.key) ∧
        row.key ∈ (db.seedSetting row).settings.map Setting.key := by
      unfold Db.seedSetting
      dsimp only
      by_cases hold : row.key ∈ db.settings.map Setting.key
      · rw [if_pos hold]
        exact ⟨fun key hkey => hkey, hold⟩
      · rw [if_neg hold, List.map_append]
        exact ⟨fun key hkey => List.mem_append_left _ hkey, by simp⟩
    obtain ⟨hkeys, hnew⟩ := ih (db.seedSetting row)
    refine ⟨fun key hkey => hkeys key (hone.1 key hkey), ?_⟩
    intro r hr
    rcases List.mem_cons.mp hr with rfl | hr
    · exact hkeys r.key hone.2
    · exact hnew r hr

theorem wellTyped_seedSettings {rows : List Setting} {db : Db}
    (hrows : ∀ row ∈ rows, TypedRow env.py row) (h : WellTyped env.py db.settings) :
    WellTyped env.py (rows.foldl Db.seedSetting db).settings := by
  induction rows generalizing db with
  | nil => exact h
  | cons row rest ih =>
    apply ih fun r hr => hrows r (List.mem_cons_of_mem row hr)
    obtain ⟨hdeclared, hread⟩ := hrows row List.mem_cons_self
    unfold Db.seedSetting
    dsimp only
    split
    · exact h
    · constructor
      · intro r hr
        rcases List.mem_append.mp hr with hr | hr
        · exact h.declared r hr
        · rw [List.mem_singleton.mp hr]
          exact hdeclared
      · intro r hr
        rcases List.mem_append.mp hr with hr | hr
        · exact h.readable r hr
        · rw [List.mem_singleton.mp hr]
          exact hread

/-- The keys of all defaults have a row. -/
def Seeded (settings : List Setting) : Prop :=
  ∀ d ∈ defaultSettings, d.key ∈ settings.map Setting.key

/-- No write takes a key away. -/
theorem seeded_of_effect {op : Write} {db db' : Db} {note : List Event}
    (h : Effect op db db' note) (hseeded : Seeded db.settings) : Seeded db'.settings := by
  by_cases hop : op = .setting
  · cases h with
    | seedSettings _ rows => exact fun d hd => (keys_seedSettings rows db).1 _ (hseeded d hd)
    | updateSetting _ key value =>
      have hsame : (db.updateSetting key value).settings.map Setting.key =
          db.settings.map Setting.key := map_updateRows _ fun _ => rfl
      intro d hd
      rw [hsame]
      exact hseeded d hd
    | _ => cases hop
  · rw [h.settings_eq hop]
    exact hseeded

theorem seeded_run {α : Type} {A : Write → Prop} {p : M α} (h : Keeps A p) {w : World}
    (hseeded : Seeded w.db.settings) : Seeded (p.run w).2.db.settings :=
  h.run_rel (R := fun db db' => Seeded db.settings → Seeded db'.settings) (fun _ => id)
    (fun hab hbc hold => hbc (hab hold)) (fun _ _ _ _ _ => seeded_of_effect) w hseeded

/-- A seeding adds rows that are well typed, and when it returns every default has one. -/
theorem seedDefaults_wellTyped {w : World} (h : WellTyped env.py w.db.settings) :
    WellTyped env.py ((seedDefaults env).run w).2.db.settings ∧
      (((seedDefaults env).run w).1 = .ok () →
        Seeded ((seedDefaults env).run w).2.db.settings) := by
  unfold seedDefaults
  rcases run_statement_cases w with ⟨e, hrun⟩ | ⟨_, u, db, note, hf, hrun⟩
  · rw [hrun]
    exact ⟨h, fun hok => nomatch hok⟩
  · rw [hrun]
    obtain ⟨rows, hrows, hf⟩ := except_bind_eq_ok.mp hf
    cases hf
    obtain ⟨hback, hforth⟩ := mapM_eq_ok hrows
    constructor
    · apply wellTyped_seedSettings ?_ h
      intro row hrow
      obtain ⟨d, hd, hseed⟩ := hback row hrow
      exact (seedRow_typed hd hseed).1
    · intro _ d hd
      obtain ⟨row, hrow, hseed⟩ := hforth d hd
      rw [← (seedRow_typed hd hseed).2]
      exact (keys_seedSettings rows w.db).2 row hrow

theorem keeps_seedDefaults {A : Write → Prop} (h : A .setting) : Keeps A (seedDefaults env) := by
  apply keeps_statement
  intro tick db a db' note hf
  obtain ⟨rows, _, hf⟩ := except_bind_eq_ok.mp hf
  cases hf
  exact ⟨_, h, .seedSettings db rows⟩

end Seeds

/-! The PUT route -/

section Route
variable {app : App}

/-- The route checks the key and passes the value on. -/
theorem put_wellTyped {xApiKey : Option String} {key : String} {value : SettingValue} {w : World}
    (h : WellTyped app.env.py w.db.settings)
    (hsuits : ∀ row, lookup Setting.key key w.db.settings = some row →
      Suits app.env.py row.valueType value) :
    WellTyped app.env.py
      ((serve app xApiKey (.updateSetting key value)).run w).2.db.settings := by
  have htouch : Keeps (fun op => op ≠ .setting) (checkGuard app.env xApiKey .admin) := by
    apply HttpAccess.keeps_checkGuard
    simp
  have hguard : ((checkGuard app.env xApiKey .admin).run w).2.db.settings = w.db.settings :=
    Keeps.run_eq (f := fun db => db.settings) htouch
      (fun op db db' note hop heffect => heffect.settings_eq hop) w
  unfold serve
  rw [run_handle_db HttpAccess.keeps_marketErrorHandler]
  rcases hrun : (checkGuard app.env xApiKey .admin).run w with ⟨e | stopped, w₁⟩
  · rw [hrun] at hguard
    erw [Coro.run_bind_error hrun]
    rwa [hguard]
  · rw [hrun] at hguard
    erw [Coro.run_bind_ok hrun]
    cases stopped with
    | some response =>
      show WellTyped app.env.py w₁.db.settings
      rwa [hguard]
    | none =>
      show WellTyped app.env.py ((updateSetting app.env key value).run w₁).2.db.settings
      unfold updateSetting orUnknownSetting
      rw [run_handle_db, run_bind_db]
      · apply set_wellTyped
        · rwa [hguard]
        · rwa [hguard]
      · exact fun _ => Coro.Frames.bind (keeps_get key) fun _ => Coro.Frames.pure _
      · intro e
        cases e with
        | unknownSetting k => exact Coro.Frames.pure _
        | _ => exact Coro.Frames.throw _

/-- A PUT is the guard's touch of the key and one write of a setting at most. -/
theorem frames_put {R : World → World → Prop} {xApiKey : Option String} {key : String}
    {value : SettingValue} (htouch : ∀ w w', Steps (fun op => op = .touchKey) w w' → R w w')
    (hset : (set app.env key value).Frames R) :
    (serve app xApiKey (.updateSetting key value)).Frames R := by
  have hquiet : ∀ w w', Steps (fun _ => False) w w' → R w w' :=
    fun w w' h => htouch w w' (h.mono fun _ hop => hop.elim)
  apply Coro.Frames.handle
  · have hguard : Keeps (fun op => op = .touchKey) (checkGuard app.env xApiKey .admin) :=
      HttpAccess.keeps_checkGuard (A := fun op => op = .touchKey) rfl _ _
    refine Coro.Frames.bind (Coro.Frames.mono hguard htouch) fun stopped => ?_
    cases stopped with
    | some response => exact Coro.Frames.pure _
    | none =>
      apply Coro.Frames.handle
      · refine Coro.Frames.bind hset fun _ => ?_
        refine Coro.Frames.bind ?_ fun _ => Coro.Frames.pure _
        exact Coro.Frames.mono (keeps_get key) hquiet
      · intro e
        cases e with
        | unknownSetting k => exact Coro.Frames.pure _
        | _ => exact Coro.Frames.throw _
  · exact fun e => Coro.Frames.mono (HttpAccess.keeps_marketErrorHandler e) hquiet

theorem put_seeded {xApiKey : Option String} {key : String} {value : SettingValue} {w : World}
    (h : Seeded w.db.settings) :
    Seeded ((serve app xApiKey (.updateSetting key value)).run w).2.db.settings := by
  have hkeeps : Keeps (fun _ => True) (serve app xApiKey (.updateSetting key value)) :=
    frames_put (fun _ _ hw => hw.mono fun _ _ => trivial) (keeps_set trivial key value)
  exact seeded_run hkeeps h

end Route

/-! Runs -/

/-- The states after any number of seedings, chat commands and PUT requests, the first
of them a seeding of the empty table, each PUT with a value that suits its row.
In between anything may happen that leaves the settings alone. -/
inductive SettingsRun (app : App) : World → Prop
  | seeded {w : World} (hempty : w.db.settings = [])
      (hok : ((seedDefaults app.env).run w).1 = .ok ()) :
      SettingsRun app ((seedDefaults app.env).run w).2
  | seed {w : World} (h : SettingsRun app w) : SettingsRun app ((seedDefaults app.env).run w).2
  | chat {w : World} (h : SettingsRun app w) (player msg : String) :
      SettingsRun app ((handleAdminCommand app.env player msg).run w).2
  | put {w : World} (h : SettingsRun app w) (xApiKey : Option String) (key : String)
      (value : SettingValue)
      (hsuits : ∀ row, lookup Setting.key key w.db.settings = some row →
        Suits app.env.py row.valueType value) :
      SettingsRun app ((serve app xApiKey (.updateSetting key value)).run w).2
  | elsewhere {w w' : World} (h : SettingsRun app w) (hsame : w'.db.settings = w.db.settings) :
      SettingsRun app w'

section Runs
variable {app : App} {w : World}

/-- In every state of a run each row is well typed and each default has its row. -/
theorem SettingsRun.typed (h : SettingsRun app w) :
    WellTyped app.env.py w.db.settings ∧ Seeded w.db.settings := by
  induction h with
  | seeded hempty hok =>
    have hstart : WellTyped app.env.py [] := ⟨by simp, by simp⟩
    rw [← hempty] at hstart
    exact ⟨(seedDefaults_wellTyped hstart).1, (seedDefaults_wellTyped hstart).2 hok⟩
  | seed h ih =>
    exact ⟨(seedDefaults_wellTyped ih.1).1, seeded_run (keeps_seedDefaults trivial :
      Keeps (fun _ => True) (seedDefaults app.env)) ih.2⟩
  | chat h player msg ih =>
    exact ⟨handleAdminCommand_wellTyped ih.1, seeded_run (keeps_handleAdminCommand trivial msg :
      Keeps (fun _ => True) (handleAdminCommand app.env player msg)) ih.2⟩
  | put h xApiKey key value hsuits ih => exact ⟨put_wellTyped ih.1 hsuits, put_seeded ih.2⟩
  | elsewhere h hsame ih => rwa [hsame]

/-- The row of a default has its type, and reading the setting deserializes it. -/
theorem default_row {env : Env} (hdeclared : ∀ row ∈ w.db.settings, ∃ d ∈ defaultSettings,
      d.key = row.key ∧ d.valueType = row.valueType)
    (hseeded : Seeded w.db.settings) {d : SettingDefault} (hd : d ∈ defaultSettings) :
    ∃ row ∈ w.db.settings, row.valueType = d.valueType ∧
      readSetting env w.db d.key = deserialize env.py row.value row.valueType := by
  have hplain : ∀ e ∈ defaultSettings, e.key.length ≤ 100 ∧
      e.key.toList.all (fun c => 32 ≤ c.toNat && c.toNat < 127) = true := by decide
  have hfunctional : ∀ e ∈ defaultSettings, ∀ e' ∈ defaultSettings, e.key = e'.key →
      e.valueType = e'.valueType := by decide
  have htext : text env d.key = .ok () :=
    if_pos (env.storable_plain _ (hplain d hd).1 (hplain d hd).2)
  cases hrow : lookup Setting.key d.key w.db.settings with
  | none => exact absurd (hseeded d hd) (lookup_eq_none.mp hrow)
  | some row =>
    obtain ⟨hmem, hkey⟩ := (lookup_eq_some w.db.sound.setting_key).mp hrow
    obtain ⟨d', hd', hkey', htype⟩ := hdeclared row hmem
    refine ⟨row, hmem, ?_, ?_⟩
    · rw [← htype]
      exact hfunctional d' hd' d hd (hkey'.trans hkey)
    · unfold readSetting
      rw [htext, hrow]
      rfl

theorem readSetting_default {env : Env} (htyped : WellTyped env.py w.db.settings)
    (hseeded : Seeded w.db.settings) {d : SettingDefault} (hd : d ∈ defaultSettings) :
    ∃ v, readSetting env w.db d.key = .ok v ∧ typeOf v = d.valueType := by
  obtain ⟨row, hmem, htype, hread⟩ := @default_row w env htyped.declared hseeded d hd
  obtain ⟨v, hv, hvtype⟩ := htyped.readable row hmem
  exact ⟨v, hread.trans hv, hvtype.trans htype⟩

/-- An integer default reads as an integer. -/
theorem SettingsRun.reads_int (h : SettingsRun app w) {key : String}
    (hd : ∃ d ∈ defaultSettings, d.key = key ∧ d.valueType = .int) :
    ∃ n, readSetting app.env w.db key = .ok (.int n) := by
  obtain ⟨d, hd, rfl, hint⟩ := hd
  obtain ⟨v, hread, htype⟩ := readSetting_default h.typed.1 h.typed.2 hd
  rw [hint] at htype
  cases v with
  | int n => exact ⟨n, hread⟩
  | _ => cases htype

theorem SettingsRun.reads_bool (h : SettingsRun app w) {key : String}
    (hd : ∃ d ∈ defaultSettings, d.key = key ∧ d.valueType = .bool) :
    ∃ b, readSetting app.env w.db key = .ok (.bool b) := by
  obtain ⟨d, hd, rfl, hbool⟩ := hd
  obtain ⟨v, hread, htype⟩ := readSetting_default h.typed.1 h.typed.2 hd
  rw [hbool] at htype
  cases v with
  | bool b => exact ⟨b, hread⟩
  | _ => cases htype

/-- Reading all settings at once works on a well-typed table. -/
theorem run_all_ok {env : Env} (htyped : WellTyped env.py w.db.settings)
    (hup : env.dbFault w.tick = none) : ∃ values, (all env).run w = (.ok values, w.next) := by
  have hrows : ∀ row ∈ w.db.settings, ∃ b, (do
      return (row.key, ← deserialize env.py row.value row.valueType) :
        Except PyErr (String × SettingValue)) = .ok b := by
    intro row hrow
    obtain ⟨v, hv, _⟩ := htyped.readable row hrow
    exact ⟨(row.key, v), except_bind_eq_ok.mpr ⟨v, hv, rfl⟩⟩
  obtain ⟨values, hvalues⟩ := mapM_ok hrows
  refine ⟨values, ?_⟩
  unfold SettingsRepo.all
  rw [run_query_ok hup hvalues]
  simp [World.next]

/-- As long as each value that is PUT suits its row, every row reads back as a value of its
type, and no read of a default setting raises while the server is up. -/
theorem settings_stay_typed (h : SettingsRun app w) :
    (∀ row ∈ w.db.settings, ∃ v, deserialize app.env.py row.value row.valueType = .ok v ∧
      typeOf v = row.valueType) ∧
    (app.env.dbFault w.tick = none →
      (∃ values, (all app.env).run w = (.ok values, w.next)) ∧
      ∀ d ∈ defaultSettings,
        (∃ v, (get app.env d.key).run w = (.ok v, w.next) ∧ typeOf v = d.valueType) ∧
        (d.valueType = .bool → ∃ b, (getBool app.env d.key).run w = (.ok b, w.next)) ∧
        (d.valueType = .int → ∃ n, (getInt app.env d.key).run w = (.ok n, w.next)) ∧
        (d.valueType = .str → ∃ s, (getStr app.env d.key).run w = (.ok s, w.next))) := by
  obtain ⟨htyped, hseeded⟩ := h.typed
  refine ⟨htyped.readable, fun hup => ⟨run_all_ok htyped hup, fun d hd => ?_⟩⟩
  obtain ⟨v, hread, htype⟩ := readSetting_default htyped hseeded hd
  have hget : (get app.env d.key).run w = (.ok v, w.next) := by
    rw [run_get, hup, hread]
  refine ⟨⟨v, hget, htype⟩, ?_, ?_, ?_⟩
  · intro hbool
    cases v with
    | bool b => exact ⟨b, run_getBool_ok hup hread⟩
    | _ =>
      rw [hbool] at htype
      cases htype
  · intro hint
    cases v with
    | int n => exact ⟨n, run_getInt_ok hup hread⟩
    | _ =>
      rw [hint] at htype
      cases htype
  · intro hstr
    cases v with
    | str s =>
      refine ⟨s, ?_⟩
      unfold getStr
      rw [Coro.run_bind_ok hget]
      rfl
    | _ =>
      rw [hstr] at htype
      cases htype

/-- Integers suit every row of a run: no default is a float. -/
theorem SettingsRun.suits_int (h : SettingsRun app w) (key : String) (n : ℤ) :
    ∀ row, lookup Setting.key key w.db.settings = some row →
      Suits app.env.py row.valueType (.int n) := by
  intro row hrow
  have hmem := ((lookup_eq_some w.db.sound.setting_key).mp hrow).1
  obtain ⟨d, hd, _, htype⟩ := h.typed.1.declared row hmem
  have hfloat := defaults_not_float hd
  rw [htype] at hfloat
  cases hrowtype : row.valueType with
  | float => exact absurd hrowtype hfloat
  | _ => trivial

end Runs

def ownedApp : App where
  env := { Env.calm with ownerCharacter := "Tara" }
  searchPage _ _ _ _ _ := .ok ([], 0)
  bot := none

def ownerWithKey : World where
  db := ((Db.empty.insertUser { player := "Tara", isAdmin := false }).bind fun db =>
    db.insertApiKey "Tara" "aomk_tara" "aomk_tara" 0).getD .empty

def seededWorld : World := ((seedDefaults ownedApp.env).run ownerWithKey).2

def putInterval (value : SettingValue) : World :=
  ((serve ownedApp (some "aomk_tara") (.updateSetting "PollIntervalMinutes" value)).run
    seededWorld).2

theorem seededWorld_run : SettingsRun ownedApp seededWorld := .seeded rfl rfl

theorem put_integer_stays_typed :
    (∀ row ∈ (putInterval (.int 15)).db.settings,
      ∃ v, deserialize ownedApp.env.py row.value row.valueType = .ok v ∧
        typeOf v = row.valueType) ∧
    (ownedApp.env.dbFault (putInterval (.int 15)).tick = none →
      (∃ values, (all ownedApp.env).run (putInterval (.int 15)) =
        (.ok values, (putInterval (.int 15)).next)) ∧
      ∀ d ∈ defaultSettings,
        (∃ v, (get ownedApp.env d.key).run (putInterval (.int 15)) =
          (.ok v, (putInterval (.int 15)).next) ∧ typeOf v = d.valueType) ∧
        (d.valueType = .bool → ∃ b, (getBool ownedApp.env d.key).run (putInterval (.int 15)) =
          (.ok b, (putInterval (.int 15)).next)) ∧
        (d.valueType = .int → ∃ n, (getInt ownedApp.env d.key).run (putInterval (.int 15)) =
          (.ok n, (putInterval (.int 15)).next)) ∧
        (d.valueType = .str → ∃ s, (getStr ownedApp.env d.key).run (putInterval (.int 15)) =
          (.ok s, (putInterval (.int 15)).next))) :=
  settings_stay_typed (.put seededWorld_run _ _ _ (seededWorld_run.suits_int _ _))

/-- A text that is no integer is stored for an integer setting; then the setting, the list of
all settings and the poll cycle that needs it raise. -/
theorem put_text_breaks_interval :
    { key := "PollIntervalMinutes", value := "abc", valueType := .int } ∈
        (putInterval (.str "abc")).db.settings ∧
      (∀ v, deserialize ownedApp.env.py "abc" .int ≠ .ok v) ∧
      (∀ n, ((getInt ownedApp.env "PollIntervalMinutes").run (putInterval (.str "abc"))).1 ≠ .ok n) ∧
      ∀ values, ((all ownedApp.env).run (putInterval (.str "abc"))).1 ≠ .ok values := by
  refine ⟨by decide, ?_, ?_, ?_⟩
  · intro v h
    cases h
  · intro n h
    cases h
  · intro values h
    cases h

end AoMarket.SettingTypes
