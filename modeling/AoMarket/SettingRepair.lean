import AoMarket.SettingTypes
import AoMarket.Matches
import Mathlib.Data.List.TakeWhile

/-!
Setting a value from chat. The command takes its type from the value it reads, so
it can replace what it can read; a text that a PUT left in an integer row stays
there. The key goes through the pattern as it is, the text without the space around it.
-/

namespace AoMarket.SettingRepair

open Coroutine Relational Models Database PyText Regex Environment SettingsRepo AdminCommands
open Writes ServiceWrites ChatWrites HttpRoutes SettingTypes

/-! Any requests -/

/-- The states after any number of seedings, chat commands and PUT requests, whatever
their values. In between anything may happen that leaves the settings alone. -/
inductive SettingsHistory (app : App) : World → Prop
  | empty {w : World} (hempty : w.db.settings = []) : SettingsHistory app w
  | seed {w : World} (h : SettingsHistory app w) :
      SettingsHistory app ((seedDefaults app.env).run w).2
  | chat {w : World} (h : SettingsHistory app w) (player msg : String) :
      SettingsHistory app ((handleAdminCommand app.env player msg).run w).2
  | put {w : World} (h : SettingsHistory app w) (xApiKey : Option String) (key : String)
      (value : SettingValue) :
      SettingsHistory app ((serve app xApiKey (.updateSetting key value)).run w).2
  | elsewhere {w w' : World} (h : SettingsHistory app w)
      (hsame : w'.db.settings = w.db.settings) : SettingsHistory app w'

/-- Every row is a default's, with its type. -/
def Declared (settings : List Setting) : Prop :=
  ∀ row ∈ settings, ∃ d ∈ defaultSettings, d.key = row.key ∧ d.valueType = row.valueType

def KeepsDeclared (w w' : World) : Prop := Declared w.db.settings → Declared w'.db.settings

section History
variable {env : Env} {app : App} {w : World}

theorem keepsDeclared_of_steps {A : Write → Prop} (hA : ∀ op, A op → op ≠ .setting) (w w' : World)
    (h : Steps A w w') : KeepsDeclared w w' := by
  intro hdeclared
  obtain ⟨_, note, _, ⟨hsame, _⟩ | ⟨op, hop, heffect⟩⟩ := h
  · rwa [hsame]
  · rwa [heffect.settings_eq (hA op hop)]

theorem declared_updateSetting {db : Db} (h : Declared db.settings) (key text : String) :
    Declared (db.updateSetting key text).settings := by
  intro row hrow
  obtain ⟨row', hrow', rfl⟩ := List.mem_map.mp hrow
  have hdefault := h row' hrow'
  split <;> exact hdefault

theorem frames_set_declared (key : String) (value : SettingValue) :
    (set env key value).Frames KeepsDeclared := by
  have hread : (getRow env key).Frames KeepsDeclared :=
    Coro.Frames.mono (keeps_query (A := fun _ => False) Silent.nil)
      (keepsDeclared_of_steps fun _ hop => hop.elim)
  refine Coro.Frames.bind hread fun row => Coro.Frames.bind (Coro.Frames.ofExcept _) fun text => ?_
  apply frames_statement (fun _ => id)
  intro w u db note hf hdeclared
  obtain ⟨_, _, hf⟩ := except_bind_eq_ok.mp hf
  cases hf
  exact declared_updateSetting hdeclared key text

theorem seedDefaults_declared (h : Declared w.db.settings) :
    Declared ((seedDefaults env).run w).2.db.settings := by
  have hrows : ∀ (rows : List Setting) (db : Db),
      (∀ row ∈ rows, ∃ d ∈ defaultSettings, d.key = row.key ∧ d.valueType = row.valueType) →
      Declared db.settings → Declared (rows.foldl Db.seedSetting db).settings := by
    intro rows
    induction rows with
    | nil => exact fun db _ hdb => hdb
    | cons row rest ih =>
      intro db hrows hdb
      apply ih _ fun r hr => hrows r (List.mem_cons_of_mem row hr)
      unfold Db.seedSetting
      dsimp only
      split
      · exact hdb
      · intro r hr
        rcases List.mem_append.mp hr with hr | hr
        · exact hdb r hr
        · rw [List.mem_singleton.mp hr]
          exact hrows row List.mem_cons_self
  unfold seedDefaults
  rcases run_statement_cases w with ⟨e, hrun⟩ | ⟨_, u, db, note, hf, hrun⟩
  · rw [hrun]
    exact h
  · rw [hrun]
    obtain ⟨rows, hseeds, hf⟩ := except_bind_eq_ok.mp hf
    cases hf
    apply hrows rows w.db ?_ h
    intro row hrow
    obtain ⟨d, hd, hseed⟩ := (mapM_eq_ok hseeds).1 row hrow
    exact (seedRow_typed hd hseed).1.1

/-- Whatever is stored, the rows are those of the defaults, with their types. -/
theorem SettingsHistory.declared (h : SettingsHistory app w) : Declared w.db.settings := by
  have hrefl : ∀ w : World, KeepsDeclared w w := fun _ => id
  have htrans : ∀ {a b c : World}, KeepsDeclared a b → KeepsDeclared b c → KeepsDeclared a c :=
    fun hab hbc hold => hbc (hab hold)
  induction h with
  | empty hempty =>
    intro row hrow
    rw [hempty] at hrow
    cases hrow
  | seed h ih => exact seedDefaults_declared ih
  | chat h player msg ih =>
    have hframes : (handleAdminCommand app.env player msg).Frames KeepsDeclared :=
      frames_handleAdminCommand (keepsDeclared_of_steps fun _ hop => hop.elim)
        frames_set_declared msg
    exact Coro.Frames.run hrefl htrans hframes _ ih
  | put h xApiKey key value ih =>
    have hframes : (serve app xApiKey (.updateSetting key value)).Frames KeepsDeclared :=
      frames_put (keepsDeclared_of_steps (by simp)) (frames_set_declared key value)
    exact Coro.Frames.run hrefl htrans hframes _ ih
  | elsewhere h hsame ih => rwa [hsame]

/-- A bool row reads back whatever text a request has put there. -/
theorem SettingsHistory.reads_bool (h : SettingsHistory app w) (hseeded : Seeded w.db.settings)
    {key : String} (hd : ∃ d ∈ defaultSettings, d.key = key ∧ d.valueType = .bool) :
    ∃ b, readSetting app.env w.db key = .ok (.bool b) := by
  obtain ⟨d, hd, rfl, hbool⟩ := hd
  obtain ⟨row, _, htype, hread⟩ := @default_row w app.env h.declared hseeded d hd
  rw [hread, htype, hbool]
  exact ⟨_, rfl⟩

end History

/-! The message -/

/-- `!settings <key> <v>`. -/
def settingsMessage (key v : String) : String := "!settings " ++ key ++ " " ++ v

def keyChar (c : Char) : Bool := isLetter c || (digitValue c).isSome || c == '_'

/-- A text the key pattern reads as a whole. -/
def keyText (key : String) : Bool :=
  match key.toList with
  | [] => false
  | c :: cs => isLetter c && cs.all keyChar && (c :: cs).all fun d => !isSpace d

theorem defaults_keyText : ∀ d ∈ defaultSettings, keyText d.key = true := by decide

section Message
variable {key v : String}

theorem toList_settingsMessage :
    (settingsMessage key v).toList =
      "!settings".toList ++ ' ' :: (key.toList ++ ' ' :: v.toList) := by
  unfold settingsMessage
  simp only [String.toList_append]
  have hhead : "!settings ".toList = "!settings".toList ++ [' '] := by decide
  have hspace : " ".toList = [' '] := by decide
  rw [hhead, hspace]
  simp

theorem dropWhile_keyText {cs rest : List Char} (h : cs.all keyChar = true) :
    (cs ++ ' ' :: rest).dropWhile keyChar = ' ' :: rest := by
  have hspace : keyChar ' ' = false := by decide
  rw [List.dropWhile_append_of_pos (List.all_eq_true.mp h)]
  exact List.dropWhile_cons_of_neg (by simp [hspace])

theorem keyText_cons (h : keyText key = true) : ∃ c cs, key.toList = c :: cs ∧
    isLetter c = true ∧ cs.all keyChar = true ∧ ∀ d ∈ c :: cs, isSpace d = false := by
  unfold keyText at h
  split at h
  · cases h
  · next c cs hlist =>
    simp only [Bool.and_eq_true] at h
    obtain ⟨⟨hletter, hchars⟩, hspaces⟩ := h
    refine ⟨c, cs, hlist, hletter, hchars, fun d hd => ?_⟩
    simpa using List.all_eq_true.mp hspaces d hd

/-- The key is read up to the space after it. -/
theorem first_keyRe (hkey : keyText key = true) (rest : List Char) (gs : Groups) :
    Re.First keyRe (key.toList ++ ' ' :: rest, gs) (' ' :: rest, (1, key) :: gs) := by
  obtain ⟨c, cs, hlist, hletter, hchars, _⟩ := keyText_cons hkey
  have hread : Re.First (.seq (.char isLetter) (.star (.char keyChar)))
      (key.toList ++ ' ' :: rest, gs) (' ' :: rest, gs) := by
    rw [hlist, List.cons_append]
    refine (Re.First.char hletter _ gs).seq ?_
    have hstar := Re.First.star keyChar (cs ++ ' ' :: rest) gs
    rwa [dropWhile_keyText hchars] at hstar
  have hgroup := hread.group 1
  have htext : (key.toList ++ ' ' :: rest).take
      ((key.toList ++ ' ' :: rest).length - (' ' :: rest).length) = key.toList := by
    rw [List.length_append, Nat.add_sub_cancel, List.take_left]
  rw [htext, String.ofList_toList] at hgroup
  exact hgroup

theorem settings_folded : ∀ c ∈ "!settings".toList, (foldLetter c == c) = true := by
  simp [foldLetter]

/-- The name of the command and the space after it. -/
theorem first_settings (hkey : keyText key = true) (rest : List Char) (gs : Groups) :
    Re.First (.seq (word "!settings") space.plus)
      ("!settings".toList ++ ' ' :: (key.toList ++ rest), gs) (key.toList ++ rest, gs) := by
  obtain ⟨c, cs, hlist, _, _, hspaces⟩ := keyText_cons hkey
  refine (first_word settings_folded _ gs).seq ?_
  have hplus := @Re.First.plus isSpace ' ' (by decide) (key.toList ++ rest) gs
  have hstop : (key.toList ++ rest).dropWhile isSpace = key.toList ++ rest := by
    rw [hlist, List.cons_append]
    exact List.dropWhile_cons_of_neg (by simp [hspaces c List.mem_cons_self])
  rwa [hstop] at hplus

theorem first_assoc {a b c : Re} {st st' : List Char × Groups}
    (h : Re.First (.seq (.seq a b) c) st st') : Re.First (.seq a (.seq b c)) st st' := by
  unfold Re.First at h ⊢
  rw [← h]
  simp only [Re.results, List.flatMap_assoc]

/-- A text that is not blank is read from its first character that is no space. -/
theorem selectAdmin_set (hkey : keyText key = true) (hline : '\n' ∉ v.toList) {c : Char}
    {rest : List Char} (hv : v.toList.dropWhile isSpace = c :: rest) :
    selectAdmin (settingsMessage key v) =
      some (.settingsSet, [(2, String.ofList (c :: rest)), (1, key)]) := by
  have hc : isSpace c = false := by
    have hhead := List.head?_dropWhile_not isSpace v.toList
    rw [hv] at hhead
    simpa using hhead
  have hrest : rest.dropWhile (fun d => d != '\n') = [] := by
    rw [List.dropWhile_eq_nil_iff]
    intro d hd
    have hmem : d ∈ v.toList := (List.dropWhile_suffix isSpace).subset (hv ▸ List.mem_cons_of_mem c hd)
    have hne : d ≠ '\n' := by
      rintro rfl
      exact hline hmem
    simpa using hne
  have hvalue : ∀ gs, Re.First (.group 2 (.seq (.char fun d => !isSpace d) (.star dot)))
      (c :: rest, gs) ([], (2, String.ofList (c :: rest)) :: gs) := by
    intro gs
    have hread : Re.First (.seq (.char fun d => !isSpace d) (.star dot)) (c :: rest, gs) ([], gs) := by
      refine (Re.First.char (by simp [hc]) rest gs).seq ?_
      have hstar := Re.First.star (fun d => d != '\n') rest gs
      rwa [hrest] at hstar
    have hgroup := hread.group 2
    simpa using hgroup
  have hspaces : ∀ gs, Re.First space.plus (' ' :: v.toList, gs) (c :: rest, gs) := by
    intro gs
    have hplus := @Re.First.plus isSpace ' ' (by decide) v.toList gs
    rwa [hv] at hplus
  have hmatch := (first_assoc ((first_settings hkey (' ' :: v.toList) []).seq
    ((first_keyRe hkey v.toList []).seq ((hspaces _).seq ((hvalue _).seq (Re.First.dollar _))))))
  have hset := @Re.First.matchStart _ (settingsMessage key v) _ (by
    rw [toList_settingsMessage]
    exact hmatch)
  unfold selectAdmin adminPatterns
  rw [List.findSome?_cons]
  have hall : Re.matchStart (.all [word "!settings", space.plus, keyRe, space.plus,
      .group 2 (.seq (.char fun c => !isSpace c) (.star dot)), .dollar])
      (settingsMessage key v) = some [(2, String.ofList (c :: rest)), (1, key)] := hset
  rw [hall]
  rfl

/-- What follows the key and starts with a space is all space. -/
theorem blank_suffix {l blank rest : List Char} (hl : ∀ c ∈ l, isSpace c = false)
    (hblank : ∀ c ∈ blank, isSpace c = true) {d : Char} (h : d :: rest <:+ l ++ blank)
    (hd : isSpace d = true) : ∀ e ∈ d :: rest, isSpace e = true := by
  obtain ⟨before, happend⟩ := h
  rcases List.append_eq_append_iff.mp happend with ⟨a, hsplit, hrest⟩ | ⟨b, _, hsplit⟩
  · cases a with
    | nil =>
      intro e he
      rw [List.nil_append] at hrest
      exact hblank e (hrest ▸ he)
    | cons c cs =>
      -- no character of the key is a space
      have hmem : d ∈ l := by
        rw [hsplit, (List.cons.inj hrest).1]
        exact List.mem_append_right _ List.mem_cons_self
      rw [hl d hmem] at hd
      cases hd
  · intro e he
    apply hblank
    rw [hsplit]
    exact List.mem_append_right _ he

/-- Whatever the key pattern reads, no character but spaces is left for the value. -/
theorem set_no_match (hkey : keyText key = true) (hblank : ∀ d ∈ ' ' :: v.toList, isSpace d = true) :
    Re.matchStart (.all [word "!settings", space.plus, keyRe, space.plus,
      .group 2 (.seq (.char fun c => !isSpace c) (.star dot)), .dollar])
      (settingsMessage key v) = none := by
  obtain ⟨c, cs, hlist, _, _, hspaces⟩ := keyText_cons hkey
  rw [Re.matchStart_eq_none, toList_settingsMessage]
  intro st hst
  obtain ⟨st₁, h₁, hst⟩ := Re.mem_all_cons.mp hst
  rw [results_word settings_folded, List.mem_singleton] at h₁
  subst h₁
  obtain ⟨st₂, h₂, hst⟩ := Re.mem_all_cons.mp hst
  rw [hlist, List.cons_append, space, Re.results_plus_stop (by decide)
    (hspaces c List.mem_cons_self), List.mem_singleton] at h₂
  subst h₂
  obtain ⟨st₃, h₃, hst⟩ := Re.mem_all_cons.mp hst
  obtain ⟨st₄, h₄, hst⟩ := Re.mem_all_cons.mp hst
  obtain ⟨st₅, h₅, _⟩ := Re.mem_all_cons.mp hst
  obtain ⟨d, rest, hd, hspace⟩ := (Re.Starts.char isSpace).seq (.star space) st₃
    (List.ne_nil_of_mem h₄)
  have hrest : ∀ e ∈ st₃.1, isSpace e = true := by
    have hsuffix : st₃.1 <:+ (c :: cs) ++ ' ' :: v.toList := Re.suffix_of_mem h₃
    rw [hd] at hsuffix ⊢
    exact blank_suffix hspaces hblank hsuffix hspace
  obtain ⟨st₆, h₆, _⟩ := List.mem_map.mp h₅
  obtain ⟨e, _, he, hchar⟩ := (Re.Starts.char fun c => !isSpace c).seq (.star dot) st₄
    (List.ne_nil_of_mem h₆)
  have hmem : e ∈ st₃.1 := by
    apply (Re.suffix_of_mem h₄).subset
    rw [he]
    exact List.mem_cons_self
  simp [hrest e hmem] at hchar

/-- A blank text leaves a command that reads the setting. -/
theorem selectAdmin_blank (hkey : keyText key = true) (hv : v.toList.dropWhile isSpace = []) :
    selectAdmin (settingsMessage key v) = some (.settingsGet, [(1, key)]) := by
  have hblank : ∀ d ∈ ' ' :: v.toList, isSpace d = true := by
    intro d hd
    rcases List.mem_cons.mp hd with rfl | hd
    · decide
    · exact List.dropWhile_eq_nil_iff.mp hv d hd
  have hget : Re.matchStart (.all [word "!settings", space.plus, keyRe, .star space, .dollar])
      (settingsMessage key v) = some [(1, key)] := by
    have hspaces : ∀ gs, Re.First (.star space) (' ' :: v.toList, gs) ([], gs) := by
      intro gs
      have hstar := Re.First.star isSpace (' ' :: v.toList) gs
      rwa [List.dropWhile_eq_nil_iff.mpr hblank] at hstar
    have hmatch := first_assoc ((first_settings hkey (' ' :: v.toList) []).seq
      ((first_keyRe hkey v.toList []).seq ((hspaces _).seq (Re.First.dollar _))))
    exact @Re.First.matchStart _ (settingsMessage key v) _ (by
      rw [toList_settingsMessage]
      exact hmatch)
  unfold selectAdmin adminPatterns
  rw [List.findSome?_cons, set_no_match hkey hblank, Option.map_none]
  dsimp only
  rw [List.findSome?_cons, hget]
  rfl

end Message

/-! The text and its value -/

/-- The value of a type that a text stands for. -/
def denotes (py : Runtime) (v : String) : ValueType → Option SettingValue
  | .bool =>
    if lower (strip v) ∈ ["true", "on", "yes", "1"] then some (.bool true)
    else if lower (strip v) ∈ ["false", "off", "no", "0"] then some (.bool false)
    else none
  | .int => (parseInt py.decimal v).map .int
  | .float => (py.parseFloat v).map .float
  | .str => some (.str v)

section Texts
variable {py : Runtime} {v : String} {t : ValueType} {value : SettingValue}

theorem denotes_typeOf (h : denotes py v t = some value) : typeOf value = t := by
  cases t with
  | bool =>
    unfold denotes at h
    dsimp only at h
    split at h
    · rw [← Option.some.inj h, typeOf]
    · split at h
      · rw [← Option.some.inj h, typeOf]
      · cases h
  | int =>
    obtain ⟨n, _, rfl⟩ := Option.map_eq_some_iff.mp h
    rfl
  | float =>
    obtain ⟨x, _, rfl⟩ := Option.map_eq_some_iff.mp h
    rfl
  | str => rw [← Option.some.inj h, typeOf]

/-- A text that stands for a value of the declared type is coerced to that value. -/
theorem coerceTo_of_denotes {key raw : String} {current : SettingValue}
    (h : denotes py raw (typeOf current) = some value) :
    coerceTo py key raw current = .ok value := by
  cases current with
  | bool b =>
    unfold typeOf denotes at h
    unfold coerceTo
    dsimp only at h ⊢
    split at h
    · next htrue =>
      rw [if_pos htrue, Option.some.inj h]
    · next htrue =>
      split at h
      · next hfalse => rw [if_neg htrue, if_pos hfalse, Option.some.inj h]
      · cases h
  | int n =>
    obtain ⟨m, hm, rfl⟩ := Option.map_eq_some_iff.mp h
    rw [coerceTo, hm]
  | float x =>
    obtain ⟨y, hy, rfl⟩ := Option.map_eq_some_iff.mp h
    rw [coerceTo, hy]
  | str s => rw [← Option.some.inj h, coerceTo]

/-- The space around a text counts in a str only. -/
theorem denotes_strip (ht : t ≠ .float) (h : denotes py v t = some value) :
    denotes py (strip v) t = some (if t = .str then .str (strip v) else value) := by
  cases t with
  | bool =>
    have hsame : denotes py (strip v) .bool = denotes py v .bool := by
      simp only [denotes, strip_strip]
    rw [hsame, h]
    simp
  | int =>
    obtain ⟨n, hn, hvalue⟩ := Option.map_eq_some_iff.mp h
    simp [denotes, parseInt_strip hn, hvalue]
  | float => exact absurd rfl ht
  | str => rfl

/-- A value written as its type reads back. -/
theorem deserialize_of_serialize {s : String} (ht : typeOf value ≠ .float)
    (h : serialize py value (typeOf value) = .ok s) :
    deserialize py s (typeOf value) = .ok value := by
  cases value with
  | bool b =>
    have hs : (if b then "true" else "false") = s := Except.ok.inj h
    rw [← hs]
    cases b <;> rfl
  | int n =>
    have htext : (if (toString n.natAbs).length ≤ maxStrDigits then Except.ok (toString n)
        else Except.error (PyErr.value tooManyDigits)) = .ok s := h
    by_cases hlen : (toString n.natAbs).length ≤ maxStrDigits
    · rw [if_pos hlen] at htext
      rw [← Except.ok.inj htext, typeOf, deserialize, parseInt_toString py hlen]
    · rw [if_neg hlen] at htext
      cases htext
  | float x => exact absurd rfl ht
  | str text =>
    have hs : text = s := Except.ok.inj h
    rw [hs]
    rfl

end Texts

/-! The command -/

section Command
variable {env : Env} {player msg key v : String} {row : Setting} {value : SettingValue}
  {w : World}

/-- The command is dispatched once the sender is known to be an admin. -/
theorem run_handleAdminCommand {name : AdminCommand} {gs : Groups}
    (hsel : selectAdmin msg = some (name, gs))
    (hadmin : ((AuthService.isAdminPlayer env player).run w).1 = .ok true) :
    ∃ w₁, w₁.db = w.db ∧ w.tick ≤ w₁.tick ∧
      (handleAdminCommand env player msg).run w =
        (dispatchReply env name gs >>= fun reply => pure (some reply)).run w₁ := by
  have hkeeps : Keeps (fun _ => False) (AuthService.isAdminPlayer env player) :=
    keeps_isAdminPlayer player
  refine ⟨((AuthService.isAdminPlayer env player).run w).2, hkeeps.db_eq w, hkeeps.run_tick_le w, ?_⟩
  have hrun : (AuthService.isAdminPlayer env player).run w =
      (.ok true, ((AuthService.isAdminPlayer env player).run w).2) := Prod.ext hadmin rfl
  unfold handleAdminCommand
  rw [hsel]
  dsimp only
  rw [Coro.run_bind_ok hrun]
  rfl

/-- The row of the key, with the server up and the key a text it takes. -/
structure Ready (env : Env) (key : String) (row : Setting) (w : World) : Prop where
  up : ∀ t, w.tick ≤ t → env.dbFault t = none
  key_taken : text env key = .ok ()
  row_of_key : lookup Setting.key key w.db.settings = some row

theorem Ready.run_get (h : Ready env key row w) :
    (get env key).run w = (deserialize env.py row.value row.valueType, w.next) := by
  rw [SettingsRepo.run_get, h.up _ (le_refl _)]
  unfold readSetting
  rw [h.key_taken, ok_bind, h.row_of_key]

theorem deserialize_error {py : Runtime} {s : String} {t : ValueType} {e : PyErr}
    (h : deserialize py s t = .error e) : ∃ message, e = .value message := by
  unfold deserialize at h
  cases t with
  | bool => cases h
  | str => cases h
  | int =>
    dsimp only at h
    split at h
    · cases h
    · exact ⟨_, (Except.error.inj h).symm⟩
  | float =>
    dsimp only at h
    split at h
    · cases h
    · exact ⟨_, (Except.error.inj h).symm⟩

theorem serialize_error {py : Runtime} {t : ValueType} {e : PyErr}
    (h : serialize py value t = .error e) : ∃ message, e = .value message := by
  have htext : value.toText py = .error e := by
    cases t with
    | bool => cases h
    | _ => exact h
  cases value with
  | int n =>
    unfold SettingValue.toText at htext
    dsimp only at htext
    split at htext
    · cases htext
    · exact ⟨_, (Except.error.inj htext).symm⟩
  | _ => cases htext

theorem Ready.next (h : Ready env key row w) : Ready env key row w.next :=
  ⟨fun t ht => h.up t (Nat.le_of_succ_le ht), h.key_taken, h.row_of_key⟩

/-- What does not read back cannot be coerced to: the command replies with the error. -/
theorem coerceOrReply_unreadable (h : Ready env key row w) (raw : String) {e : PyErr}
    (hread : deserialize env.py row.value row.valueType = .error e) :
    ∃ message, (coerceOrReply env key raw).run w = (.ok (.inl message), w.next) := by
  obtain ⟨message, rfl⟩ := deserialize_error hread
  refine ⟨message, ?_⟩
  unfold coerceOrReply coerceSettingValue
  rw [Coro.run_handle, Coro.bind_assoc, Coro.run_bind, h.run_get, hread]
  rfl

/-- A text of the declared type passes the command's coercion. -/
theorem coerceOrReply_denotes (h : Ready env key row w) {raw : String} {current : SettingValue}
    (hread : deserialize env.py row.value row.valueType = .ok current)
    (hraw : denotes env.py raw row.valueType = some value) :
    (coerceOrReply env key raw).run w = (.ok (.inr value), w.next) := by
  have hcoerce : coerceTo env.py key raw current = .ok value := by
    apply coerceTo_of_denotes
    rw [deserialize_typeOf hread]
    exact hraw
  unfold coerceOrReply coerceSettingValue
  rw [Coro.run_handle, Coro.bind_assoc, Coro.run_bind, h.run_get, hread]
  dsimp only
  rw [hcoerce]
  rfl

/-- The value has a text that the server takes. -/
def Storable (env : Env) (value : SettingValue) (t : ValueType) : Prop :=
  ∃ s, serialize env.py value t = .ok s ∧ text env s = .ok ()

/-- A text that stands for a value of the row's type leads to the write. -/
theorem run_dispatch_set (h : Ready env key row w) {raw : String} {current : SettingValue}
    (hread : deserialize env.py row.value row.valueType = .ok current)
    (hraw : denotes env.py (strip raw) row.valueType = some value) :
    (dispatch env .settingsSet [(2, raw), (1, key)]).run w =
      (set env key value >>= fun _ => do
        let newValue ← get env key
        return s!"{key} = {newValue.repr env.py}").run w.next := by
  show (coerceOrReply env key (strip raw) >>= _).run w = _
  rw [Coro.run_bind_ok (coerceOrReply_denotes h hread hraw)]
  rfl

/-- A value of the row's type is written and read again. -/
theorem dispatch_set_ok (h : Ready env key row w) {raw : String} {current : SettingValue}
    (hread : deserialize env.py row.value row.valueType = .ok current)
    (hraw : denotes env.py (strip raw) row.valueType = some value) (hfloat : row.valueType ≠ .float)
    (hstorable : Storable env value row.valueType) :
    ∃ reply w' s, (dispatch env .settingsSet [(2, raw), (1, key)]).run w = (.ok reply, w') ∧
      w.tick ≤ w'.tick ∧ w'.db = w.db.updateSetting key s ∧
      deserialize env.py s row.valueType = .ok value := by
  obtain ⟨s, hs, hstore⟩ := hstorable
  have htype := denotes_typeOf hraw
  have hback : deserialize env.py s row.valueType = .ok value := by
    rw [← htype] at hs hfloat ⊢
    exact deserialize_of_serialize hfloat hs
  let written : World := { w.next.next.next with db := w.db.updateSetting key s }
  have hset : (set env key value).run w.next = (.ok (), written) := by
    rw [run_set h.next.up h.key_taken h.row_of_key, hs]
    dsimp only
    rw [hstore]
    rfl
  have hready : Ready env key { row with value := s } written := by
    refine ⟨fun t ht => h.up t ?_, h.key_taken, ?_⟩
    · have hticks : written.tick = w.tick + 3 := rfl
      omega
    · have hkey : row.key = key := ((lookup_eq_some w.db.sound.setting_key).mp h.row_of_key).2
      show lookup Setting.key key (w.db.updateSetting key s).settings = _
      rw [lookup_updateSetting, h.row_of_key]
      simp [hkey]
  refine ⟨s!"{key} = {value.repr env.py}", written.next, s, ?_, ?_, rfl, hback⟩
  · rw [run_dispatch_set h hread hraw, Coro.run_bind_ok hset,
      Coro.run_bind_ok (hready.run_get.trans (by rw [hback]))]
    rfl
  · have hticks : written.next.tick = w.tick + 4 := rfl
    omega

/-- A value the server does not take raises. -/
theorem dispatch_set_error (h : Ready env key row w) {raw : String} {current : SettingValue}
    (hread : deserialize env.py row.value row.valueType = .ok current)
    (hraw : denotes env.py (strip raw) row.valueType = some value)
    (hstorable : ¬ Storable env value row.valueType) :
    ∃ e w', (dispatch env .settingsSet [(2, raw), (1, key)]).run w = (.error e, w') ∧
      ∀ k, e ≠ .unknownSetting k := by
  have hset := @run_set env key value row w.next h.next.up h.key_taken h.row_of_key
  rw [run_dispatch_set h hread hraw]
  cases hs : serialize env.py value row.valueType with
  | error e =>
    rw [hs] at hset
    obtain ⟨message, rfl⟩ := serialize_error hs
    exact ⟨_, _, Coro.run_bind_error hset _, fun k hk => nomatch hk⟩
  | ok s =>
    rw [hs] at hset
    dsimp only at hset
    by_cases hstore : env.storable s = true
    · exact absurd ⟨s, hs, if_pos hstore⟩ hstorable
    · have htext : text env s = .error .database := if_neg hstore
      rw [htext] at hset
      exact ⟨_, _, Coro.run_bind_error hset _, fun k hk => nomatch hk⟩

end Command

/-! When a setting is repaired -/

/-- The message is answered, a read of the key then returns the value, and the other
keys have the rows they had. -/
def Repairs (env : Env) (player key v : String) (value : SettingValue) (w : World) : Prop :=
  ∃ reply w', (handleAdminCommand env player (settingsMessage key v)).run w =
      (.ok (some reply), w') ∧
    ((get env key).run w').1 = .ok value ∧
    ∀ k, k ≠ key → lookup Setting.key k w'.db.settings = lookup Setting.key k w.db.settings

/-- The stored text reads back, the server takes the new one, and a str has no space
around it; a blank text sets nothing, so it has to be stored already. -/
def Repairable (env : Env) (row : Setting) (v : String) (value : SettingValue) : Prop :=
  if strip v = "" then deserialize env.py row.value row.valueType = .ok value
  else (∃ current, deserialize env.py row.value row.valueType = .ok current) ∧
    (row.valueType = .str → strip v = v) ∧ Storable env value row.valueType

theorem strip_eq_empty {v : String} : strip v = "" ↔ v.toList.dropWhile isSpace = [] := by
  have hlist : strip v = "" ↔ stripChars v.toList = [] := by
    rw [← String.toList_inj, strip, String.toList_ofList]
    rfl
  rw [hlist]
  unfold stripChars stripWith
  constructor
  · intro h
    rw [List.reverse_eq_nil_iff, List.dropWhile_eq_nil_iff] at h
    cases hrest : v.toList.dropWhile isSpace with
    | nil => rfl
    | cons c rest =>
      have hhead := List.head?_dropWhile_not isSpace v.toList
      rw [hrest] at hhead h
      have hspace := h c (by simp)
      simp [hspace] at hhead
  · intro h
    rw [h]
    rfl

section Repair
variable {env : Env} {app : App} {player key v : String} {row : Setting} {value : SettingValue}
  {w w₁ : World}

theorem run_dispatchReply_ok {name : AdminCommand} {gs : Groups} {reply : String} {w' : World}
    (h : (dispatch env name gs).run w = (.ok reply, w')) :
    (dispatchReply env name gs >>= fun reply => pure (some reply)).run w =
      (.ok (some reply), w') := by
  have hreply : (dispatchReply env name gs).run w = (.ok reply, w') := by
    unfold dispatchReply
    rw [Coro.run_handle, h]
  rw [Coro.run_bind_ok hreply]
  rfl

theorem run_dispatchReply_error {name : AdminCommand} {gs : Groups} {e : PyErr} {w' : World}
    (h : (dispatch env name gs).run w = (.error e, w')) (he : ∀ k, e ≠ .unknownSetting k) :
    (dispatchReply env name gs >>= fun reply => pure (some reply)).run w = (.error e, w') := by
  have hreply : (dispatchReply env name gs).run w = (.error e, w') := by
    unfold dispatchReply
    rw [Coro.run_handle, h]
    cases e with
    | unknownSetting k => exact absurd rfl (he k)
    | _ => rfl
  rw [Coro.run_bind_error hreply]

/-- A message that is answered repairs the setting if what is read afterwards is the value. -/
theorem repairs_iff {reply : String} {w' : World} {read : Except PyErr SettingValue}
    (hrun : (handleAdminCommand env player (settingsMessage key v)).run w = (.ok (some reply), w'))
    (hread : ((get env key).run w').1 = read)
    (hothers : ∀ k, k ≠ key → lookup Setting.key k w'.db.settings =
      lookup Setting.key k w.db.settings) :
    Repairs env player key v value w ↔ read = .ok value := by
  constructor
  · rintro ⟨reply', w'', hreply, hvalue, _⟩
    rw [hrun] at hreply
    cases hreply
    rwa [← hread]
  · intro h
    exact ⟨reply, w', hrun, hread.trans h, hothers⟩

theorem not_repairs {e : PyErr} {w' : World}
    (hrun : (handleAdminCommand env player (settingsMessage key v)).run w = (.error e, w')) :
    ¬ Repairs env player key v value w := by
  rintro ⟨reply, w'', hreply, _⟩
  rw [hrun] at hreply
  cases hreply

/-- A blank text leaves the setting as it is. -/
theorem repairs_blank_iff (hready : Ready env key row w) (hkey : keyText key = true)
    (hadmin : ((AuthService.isAdminPlayer env player).run w).1 = .ok true)
    (hv : v.toList.dropWhile isSpace = []) :
    Repairs env player key v value w ↔
      deserialize env.py row.value row.valueType = .ok value := by
  obtain ⟨w₁, hdb, htick, hrun⟩ := run_handleAdminCommand (selectAdmin_blank hkey hv) hadmin
  have hready₁ : Ready env key row w₁ :=
    ⟨fun t ht => hready.up t (htick.trans ht), hready.key_taken, by rw [hdb]; exact hready.row_of_key⟩
  have hget : (dispatch env .settingsGet [(1, key)]).run w₁ =
      (get env key >>= fun value => pure s!"{key} = {value.repr env.py}").run w₁ := rfl
  have hread := hready₁.run_get
  cases hcurrent : deserialize env.py row.value row.valueType with
  | error e =>
    rw [hcurrent] at hread
    rw [Coro.run_bind_error hread] at hget
    obtain ⟨message, rfl⟩ := deserialize_error hcurrent
    rw [run_dispatchReply_error hget (by simp)] at hrun
    exact iff_of_false (not_repairs hrun) nofun
  | ok current =>
    rw [hcurrent] at hread
    rw [Coro.run_bind_ok hread] at hget
    rw [run_dispatchReply_ok hget] at hrun
    have hafter := congrArg Prod.fst hready₁.next.run_get
    rw [hcurrent] at hafter
    exact repairs_iff hrun hafter fun k _ => congrArg (fun db => lookup Setting.key k db.settings) hdb

/-- A text that cannot be stored over the present one, which does not read back. -/
theorem not_repairs_unreadable {raw : String} {e : PyErr}
    (hcurrent : deserialize env.py row.value row.valueType = .error e)
    (hrun : (handleAdminCommand env player (settingsMessage key v)).run w =
      (dispatchReply env .settingsSet [(2, raw), (1, key)] >>= fun reply => pure (some reply)).run w₁)
    (hdb : w₁.db = w.db) (hready₁ : Ready env key row w₁) :
    ¬ Repairs env player key v value w := by
  obtain ⟨message, hcoerce⟩ := coerceOrReply_unreadable hready₁ (strip raw) hcurrent
  have hset : (dispatch env .settingsSet [(2, raw), (1, key)]).run w₁ = (.ok message, w₁.next) := by
    show (coerceOrReply env key (strip raw) >>= _).run w₁ = _
    rw [Coro.run_bind_ok hcoerce]
    rfl
  rw [run_dispatchReply_ok hset] at hrun
  have hafter := congrArg Prod.fst hready₁.next.run_get
  rw [hcurrent] at hafter
  rw [repairs_iff hrun hafter fun k _ => congrArg (fun db => lookup Setting.key k db.settings) hdb]
  exact nofun

/-- With a readable row the text stored is the one the message carries. -/
theorem repairs_written_iff {raw : String} {current written : SettingValue}
    (hready₁ : Ready env key row w₁) (hdb : w₁.db = w.db)
    (hrun : (handleAdminCommand env player (settingsMessage key v)).run w =
      (dispatchReply env .settingsSet [(2, raw), (1, key)] >>= fun reply => pure (some reply)).run w₁)
    (hcurrent : deserialize env.py row.value row.valueType = .ok current)
    (hraw : denotes env.py (strip raw) row.valueType = some written)
    (hfloat : row.valueType ≠ .float) :
    Repairs env player key v value w ↔ written = value ∧ Storable env written row.valueType := by
  by_cases hstorable : Storable env written row.valueType
  · obtain ⟨reply, w', s, hset, htick, hdb', hback⟩ :=
      dispatch_set_ok hready₁ hcurrent hraw hfloat hstorable
    rw [run_dispatchReply_ok hset] at hrun
    have hrow' : lookup Setting.key key w'.db.settings = some { row with value := s } := by
      have hname : row.key = key :=
        ((lookup_eq_some w₁.db.sound.setting_key).mp hready₁.row_of_key).2
      rw [hdb', lookup_updateSetting, hready₁.row_of_key]
      simp [hname]
    have hready' : Ready env key { row with value := s } w' :=
      ⟨fun t ht => hready₁.up t (htick.trans ht), hready₁.key_taken, hrow'⟩
    have hafter : ((get env key).run w').1 = .ok written :=
      (congrArg Prod.fst hready'.run_get).trans hback
    have hothers : ∀ k, k ≠ key → lookup Setting.key k w'.db.settings =
        lookup Setting.key k w.db.settings := by
      intro k hk
      rw [hdb', lookup_updateSetting, hdb]
      cases hother : lookup Setting.key k w.db.settings with
      | none => rfl
      | some r =>
        have hname : r.key = k := ((lookup_eq_some w.db.sound.setting_key).mp hother).2
        simp [hname, hk]
    rw [repairs_iff hrun hafter hothers, Except.ok.injEq]
    simp [hstorable]
  · obtain ⟨e, w', hset, he⟩ := dispatch_set_error hready₁ hcurrent hraw hstorable
    rw [run_dispatchReply_error hset he] at hrun
    exact iff_of_false (not_repairs hrun) fun h => hstorable h.2

/-- A text that is not blank is coerced and written. -/
theorem repairs_text_iff (hready : Ready env key row w) (hkey : keyText key = true)
    (hfloat : row.valueType ≠ .float)
    (hadmin : ((AuthService.isAdminPlayer env player).run w).1 = .ok true)
    (hline : '\n' ∉ v.toList) (hvalid : denotes env.py v row.valueType = some value)
    (hv : v.toList.dropWhile isSpace ≠ []) :
    Repairs env player key v value w ↔
      (∃ current, deserialize env.py row.value row.valueType = .ok current) ∧
        (row.valueType = .str → strip v = v) ∧ Storable env value row.valueType := by
  obtain ⟨c, rest, hrest⟩ := List.exists_cons_of_ne_nil hv
  obtain ⟨w₁, hdb, htick, hrun⟩ :=
    run_handleAdminCommand (selectAdmin_set hkey hline hrest) hadmin
  have hready₁ : Ready env key row w₁ :=
    ⟨fun t ht => hready.up t (htick.trans ht), hready.key_taken, by rw [hdb]; exact hready.row_of_key⟩
  have hstrip : strip (String.ofList (c :: rest)) = strip v := by
    rw [← hrest]
    unfold strip
    rw [String.toList_ofList, stripChars_dropWhile]
  -- what is written is the text without the space around it
  have hraw : denotes env.py (strip (String.ofList (c :: rest))) row.valueType =
      some (if row.valueType = .str then .str (strip v) else value) := by
    rw [hstrip]
    exact denotes_strip hfloat hvalid
  have hsame : (if row.valueType = .str then .str (strip v) else value) = value ↔
      (row.valueType = .str → strip v = v) := by
    by_cases hstr : row.valueType = .str
    · rw [hstr] at hvalid
      have hvalue : value = .str v := (Option.some.inj hvalid).symm
      simp [hstr, hvalue]
    · simp [hstr]
  cases hcurrent : deserialize env.py row.value row.valueType with
  | error e =>
    refine iff_of_false (not_repairs_unreadable hcurrent hrun hdb hready₁) ?_
    rintro ⟨⟨current, h⟩, _⟩
    cases h
  | ok current =>
    rw [repairs_written_iff hready₁ hdb hrun hcurrent hraw hfloat, hsame]
    constructor
    · rintro ⟨hclean, hstorable⟩
      rw [hsame.mpr hclean] at hstorable
      exact ⟨⟨current, rfl⟩, hclean, hstorable⟩
    · rintro ⟨_, hclean, hstorable⟩
      refine ⟨hclean, ?_⟩
      rwa [hsame.mpr hclean]

/-- Whatever was requested before, an admin's message repairs a setting if and only if the
stored text reads back and the server takes the new one. -/
theorem message_repairs_iff (h : SettingsHistory app w)
    (hrow : lookup Setting.key key w.db.settings = some row) (hline : '\n' ∉ v.toList)
    (hvalid : denotes app.env.py v row.valueType = some value)
    (hadmin : ((AuthService.isAdminPlayer app.env player).run w).1 = .ok true)
    (hup : ∀ t, w.tick ≤ t → app.env.dbFault t = none) :
    Repairs app.env player key v value w ↔ Repairable app.env row v value := by
  obtain ⟨hmem, hname⟩ := (lookup_eq_some w.db.sound.setting_key).mp hrow
  obtain ⟨d, hd, hkey, htype⟩ := h.declared row hmem
  have hplain : ∀ e ∈ defaultSettings, e.key.length ≤ 100 ∧
      e.key.toList.all (fun c => 32 ≤ c.toNat && c.toNat < 127) = true := by decide
  rw [hname] at hkey
  have hready : Ready app.env key row w := by
    refine ⟨hup, ?_, hrow⟩
    rw [← hkey]
    exact if_pos (app.env.storable_plain _ (hplain d hd).1 (hplain d hd).2)
  have hshape : keyText key = true := hkey ▸ defaults_keyText d hd
  have hfloat : row.valueType ≠ .float := htype ▸ defaults_not_float hd
  unfold Repairable
  by_cases hblank : strip v = ""
  · rw [if_pos hblank]
    exact repairs_blank_iff hready hshape hadmin (strip_eq_empty.mp hblank)
  · rw [if_neg hblank]
    apply repairs_text_iff hready hshape hfloat hadmin hline hvalid
    exact fun hnil => hblank (strip_eq_empty.mpr hnil)

/-- The owner sets the poll interval of a new table. -/
theorem owner_sets_interval :
    Repairs ownedApp.env "Tara" "PollIntervalMinutes" "15" (.int 15) seededWorld ↔
      Repairable ownedApp.env ⟨"PollIntervalMinutes", "30", .int⟩ "15" (.int 15) :=
  message_repairs_iff (.seed (.empty rfl)) (by decide +kernel) (by decide) (by decide +kernel)
    (by decide +kernel) (fun _ _ => rfl)

/-- After a PUT of a text that is no integer, no message of the owner's sets the interval. -/
theorem put_text_cannot_be_repaired :
    SettingsHistory ownedApp (putInterval (.str "abc")) ∧
      denotes ownedApp.env.py "30" .int = some (.int 30) ∧
      ¬ Repairs ownedApp.env "Tara" "PollIntervalMinutes" "30" (.int 30)
        (putInterval (.str "abc")) := by
  refine ⟨.put (.seed (.empty rfl)) _ _ _, by decide +kernel, ?_⟩
  rintro ⟨reply, w', hrun, hvalue, _⟩
  have hw' : w' = ((handleAdminCommand ownedApp.env "Tara"
      (settingsMessage "PollIntervalMinutes" "30")).run (putInterval (.str "abc"))).2 := by
    rw [hrun]
  have hlost : ((get ownedApp.env "PollIntervalMinutes").run ((handleAdminCommand ownedApp.env "Tara"
      (settingsMessage "PollIntervalMinutes" "30")).run (putInterval (.str "abc"))).2).1 ≠
        .ok (.int 30) := by decide +kernel
  rw [hw'] at hvalue
  exact hlost hvalue

end Repair

end AoMarket.SettingRepair
