import AoMarket.FirstMatch
import AoMarket.CommandShapes

/-!
The order of the patterns. The words after the prefix leave one command among the
nineteen specific ones, so these never compete; the two catch-alls take what the
others leave, and only `overview` stands behind one of them, with messages the other
does not match. Another order of the table selects the same as long as it hides no
specific pattern behind a catch-all.
-/

namespace AoMarket.CommandRouting

open Coroutine Environment SettingsRepo PyText Regex Commands FirstMatch
open CommandWords CommandShapes

def catchAll : Command → Bool
  | .watchSearch | .search => true
  | _ => false

def isSpecific (p : Command × Re) : Bool := !catchAll p.1

def specific : List (Command × Re) := patterns.filter isSpecific

def catchAlls : List (Command × Re) := patterns.filter fun p => !isSpecific p

example : specific.length = 19 := rfl

def tryPattern (msg : String) (p : Command × Re) : Option (Command × Groups) :=
  (p.2.matchStart msg).map fun gs => (p.1, gs)

def selectFrom (table : List (Command × Re)) (msg : String) : Option (Command × Groups) :=
  table.findSome? (tryPattern msg)

def handleCommandWith (table : List (Command × Re)) (env : Env) (player msg : String) :
    M String := do
  if !(← getBool env "Enabled") then
    return "The Market module is currently disabled."
  match selectFrom table msg with
  | some (name, gs) => dispatchReply env player name gs
  | none => return usage

/-- The patterns in another order, the one catch-all still before the other. -/
structure Reordering (table : List (Command × Re)) : Prop where
  perm : table.Perm patterns
  kept : (table.filter fun p => !isSpecific p) = catchAlls

theorem handleCommandWith_eq {table : List (Command × Re)} {msg : String}
    (h : selectFrom table msg = selectCommand msg) (env : Env) (player : String) :
    handleCommandWith table env player msg = handleCommand env player msg := by
  unfold handleCommandWith
  rw [h]
  rfl

/-! The command that the words leave -/

/-- A word as the patterns read it: a number, or a word in any case. -/
inductive Token where
  | number
  | word (s : String)
deriving DecidableEq

instance (w : String) : Decidable (IsNumber w) := inferInstanceAs (Decidable (_ ∧ _))

/-- Some letter is no digit. -/
def spelled (s : String) : Bool := s.toList.any fun c => (digitValue c).isNone

def token (w : String) : Token := if IsNumber w then .number else .word (foldWord w)

/-- The one specific command that the words after the prefix can be for. -/
def routed : List Token → Command
  | .word "register" :: _ => .register
  | .word "unregister" :: _ => .unregister
  | .word "untrack" :: _ => .untrackAll
  | .word "apikey" :: .word "generate" :: _ => .apikeyGenerate
  | .word "apikey" :: .word "revoke" :: _ => .apikeyRevoke
  | .word "apikey" :: _ => .apikeyList
  | .word "status" :: _ :: _ => .statusDetails
  | .word "status" :: _ => .status
  | .word "watchlist" :: _ => .watchlist
  | .word "user" :: _ => .userStats
  | .word "filter" :: .word "price" :: _ => .filterPrice
  | .word "filter" :: .word "ql" :: _ => .filterQl
  | .word "filter" :: .word "clear" :: _ => .filterClear
  | .word "filter" :: _ => .filterShow
  | .word "unwatch" :: .word "all" :: _ => .unwatchAll
  | [.word "unwatch", .number] => .unwatch
  | .word "unwatch" :: _ => .unwatchBulk
  | .word "watch" :: _ => .watchAoid
  | _ => .overview

section Tokens
variable {w s : String} {args command : List String} {gs : Groups}

theorem token_number (h : IsNumber w) : token w = .number := if_pos h

theorem not_number (hs : spelled s = true) : ¬ IsNumber s := by
  intro hnumber
  obtain ⟨c, hc, hnone⟩ := List.any_eq_true.mp hs
  have hdigit := hnumber.2 c hc
  rw [← Option.not_isNone, hnone] at hdigit
  cases hdigit

/-- IGNORECASE leaves a number as it is, so it makes no word of one. -/
theorem token_word (hs : spelled s = true) (h : foldWord w = s) : token w = .word s := by
  have hw : ¬ IsNumber w := by
    intro hnumber
    rw [hnumber.foldWord] at h
    rw [h] at hnumber
    exact not_number hs hnumber
  rw [token, if_neg hw, h]

theorem isNumber_of_token (h : token w = .number) : IsNumber w := by
  unfold token at h
  by_contra hw
  rw [if_neg hw] at h
  cases h

theorem foldWord_of_token (h : token w = .word s) : foldWord w = s := by
  unfold token at h
  by_cases hw : IsNumber w
  · rw [if_pos hw] at h
    cases h
  · rw [if_neg hw] at h
    exact Token.word.inj h

theorem tokens_of_fold (hcommand : command.all spelled = true)
    (h : args.map foldWord = command) : args.map token = command.map .word := by
  rw [← h, List.map_map]
  apply List.map_congr_left
  intro w hw
  apply token_word _ rfl
  apply List.all_eq_true.mp hcommand
  rw [← h]
  exact List.mem_map_of_mem hw

theorem tokens_of_confirmable (hcommand : command.all spelled = true)
    (h : Confirmable command args gs) :
    ∃ more, args.map token = command.map Token.word ++ more := by
  rcases h with ⟨hargs, _⟩ | ⟨_, hargs, _⟩
  · exact ⟨[], by rw [tokens_of_fold hcommand hargs, List.append_nil]⟩
  · have hwords : (command ++ ["confirm"]).all spelled = true := by
      rw [List.all_append, hcommand]
      decide
    refine ⟨[.word "confirm"], ?_⟩
    rw [tokens_of_fold hwords hargs, List.map_append]
    rfl

/-- A list of numbers is more than one number, and no `all`. -/
theorem routed_list (t : NumberList) :
    routed (.word "unwatch" :: (words t.text).map token) = .unwatchBulk := by
  have hall : Token.word "all" ∉ (words t.text).map token := by
    intro hmem
    obtain ⟨w, hw, htoken⟩ := List.mem_map.mp hmem
    exact ne_all (text_chars t) w hw (foldWord_of_token htoken)
  have hone : (words t.text).map token ≠ [.number] := by
    intro hargs
    obtain ⟨n, hn, htoken⟩ := List.map_eq_singleton_iff.mp hargs
    exact words_text_ne t (isNumber_of_token htoken) hn
  generalize (words t.text).map token = tokens at hall hone
  cases tokens with
  | nil => rfl
  | cons first others =>
    cases first with
    | number =>
      cases others with
      | nil => exact absurd rfl hone
      | cons second others => rfl
    | word s =>
      have hs : s ≠ "all" := by
        intro hs
        rw [hs] at hall
        exact hall List.mem_cons_self
      simp [routed, hs]

end Tokens

/-- Words of a command's shape are routed to that command. -/
theorem routed_of_shape {args : List String} {gs : Groups} {name : Command}
    (h : Shape args gs name) (hname : catchAll name = false) :
    routed (args.map token) = name := by
  cases name with
  | register | apikeyGenerate | apikeyList | statusDetails | status | watchlist =>
    rw [tokens_of_fold (by decide) h]
    rfl
  | unregister | untrackAll | apikeyRevoke | unwatchAll =>
    obtain ⟨more, htokens⟩ := tokens_of_confirmable (by decide) h
    rw [htokens]
    rfl
  | userStats =>
    obtain ⟨v, rest, rfl, hv⟩ := h
    rw [List.map_cons, token_word (by decide) hv]
    rfl
  | filterPrice | filterQl =>
    obtain ⟨v, u, n, rest, rfl, hv, hu, _⟩ := h
    rw [List.map_cons, List.map_cons, token_word (by decide) hv, token_word (by decide) hu]
    rfl
  | filterClear =>
    obtain ⟨v, u, n, rfl, hv, hu, _⟩ := h
    rw [List.map_cons, List.map_cons, token_word (by decide) hv, token_word (by decide) hu]
    rfl
  | filterShow | watchAoid =>
    obtain ⟨v, n, rfl, hv, hn⟩ := h
    rw [List.map_cons, List.map_singleton, token_word (by decide) hv, token_number hn]
    rfl
  | unwatchBulk =>
    obtain ⟨v, t, rfl, hv, _⟩ := h
    rw [List.map_cons, token_word (by decide) hv]
    exact routed_list t
  | unwatch =>
    obtain ⟨v, n, rfl, hv, hn, _⟩ := h
    rw [List.map_cons, List.map_singleton, token_word (by decide) hv, token_number hn]
    rfl
  | overview =>
    obtain ⟨n, rfl, hn⟩ := h
    rw [List.map_singleton, token_number hn]
    rfl
  | watchSearch | search => cases hname

/-! The patterns of the source -/

section Table
variable {msg : String} {p q : Command × Re}

theorem names_nodup : (patterns.map Prod.fst).Nodup := by decide

theorem eq_of_name (hp : p ∈ patterns) (hq : q ∈ patterns) (h : p.1 = q.1) : p = q :=
  List.inj_on_of_nodup_map names_nodup hp hq h

theorem shape_of_try (hp : p ∈ patterns) (h : tryPattern msg p ≠ none) :
    ∃ gs, Shape (words msg.toList).tail gs p.1 := by
  obtain ⟨r, hr⟩ := Option.ne_none_iff_exists'.mp h
  obtain ⟨gs, hgs, _⟩ := Option.map_eq_some_iff.mp hr
  obtain ⟨rest, hrest⟩ := Re.matchStart_mem hgs
  obtain ⟨cmd, args, hwords, _, hshape⟩ := reads_of_match hp hrest
  refine ⟨gs, ?_⟩
  rw [hwords]
  exact hshape

theorem try_eq (hp : p ∈ patterns) (hq : q ∈ patterns) (h : tryPattern msg p = tryPattern msg q)
    (hmatch : tryPattern msg q ≠ none) : p = q := by
  obtain ⟨r, hr⟩ := Option.ne_none_iff_exists'.mp hmatch
  rw [hr] at h
  obtain ⟨gs, _, hp'⟩ := Option.map_eq_some_iff.mp h
  obtain ⟨gs', _, hq'⟩ := Option.map_eq_some_iff.mp hr
  rw [← hq'] at hp'
  exact eq_of_name hp hq (Prod.mk.inj hp').1

theorem specific_exclusive (msg : String) : Exclusive (tryPattern msg) specific := by
  intro p hp q hq hmatch hmatch'
  obtain ⟨hp, hspecific⟩ := List.mem_filter.mp hp
  obtain ⟨hq, hspecific'⟩ := List.mem_filter.mp hq
  obtain ⟨gs, hshape⟩ := shape_of_try hp hmatch
  obtain ⟨gs', hshape'⟩ := shape_of_try hq hmatch'
  apply eq_of_name hp hq
  rw [← routed_of_shape hshape (by simpa [isSpecific] using hspecific),
    routed_of_shape hshape' (by simpa [isSpecific] using hspecific')]

/-- Of the specific commands only the one that watches a number begins with `watch`. -/
theorem eq_watchAoid {args : List String} {gs gs' : Groups} {name : Command}
    (hwatch : Shape args gs .watchSearch) (h : Shape args gs' name)
    (hname : catchAll name = false) : name = .watchAoid := by
  obtain ⟨v, rest, rfl, hv⟩ := hwatch
  rw [← routed_of_shape h hname, List.map_cons, token_word (by decide) hv]
  rfl

/-- It is enough that nothing specific stands behind the search, and `watch` with a
number not behind `watch` with a text. -/
theorem unshadowed_of_names {table : List (Command × Re)} (hmem : ∀ p ∈ table, p ∈ patterns)
    (hnames : (table.map Prod.fst).Pairwise fun c p =>
      catchAll c = true → catchAll p = false → c = .watchSearch ∧ p ≠ .watchAoid)
    (msg : String) : Unshadowed isSpecific (tryPattern msg) table := by
  apply (List.pairwise_map.mp hnames).imp_of_mem
  intro c p hc hp hnames hother hspecific hmatch
  have hspecific : catchAll p.1 = false := by simpa [isSpecific] using hspecific
  obtain ⟨hwatch, hnumber⟩ := hnames (by simpa [isSpecific] using hother) hspecific
  by_contra hmatch'
  obtain ⟨gs, hshape⟩ := shape_of_try (hmem c hc) hmatch'
  obtain ⟨gs', hshape'⟩ := shape_of_try (hmem p hp) hmatch
  rw [hwatch] at hshape
  exact hnumber (eq_watchAoid hshape hshape' hspecific)

theorem patterns_unshadowed (msg : String) :
    Unshadowed isSpecific (tryPattern msg) patterns :=
  unshadowed_of_names (fun _ hp => hp) (by decide) msg

/-- A specific pattern that matches is the one selected. -/
theorem selectCommand_of_try (hp : p ∈ patterns) (hspecific : isSpecific p = true)
    (hmatch : tryPattern msg p ≠ none) : selectCommand msg = tryPattern msg p := by
  have hone := (specific_exclusive msg).findSome? (List.mem_filter.mpr ⟨hp, hspecific⟩) hmatch
  obtain ⟨r, hr⟩ := Option.ne_none_iff_exists'.mp hmatch
  calc
    selectCommand msg = (specific ++ catchAlls).findSome? (tryPattern msg) :=
      (patterns_unshadowed msg).findSome?
    _ = tryPattern msg p := by rw [List.findSome?_append, hone, hr, Option.some_or]

/-- A message that matches a specific pattern selects it: no other pattern before it matches. -/
theorem select_of_match (hp : p ∈ patterns) (hspecific : isSpecific p = true)
    {st : List Char × Groups} (hst : st ∈ Re.results p.2 (msg.toList, [])) :
    ∃ gs, selectCommand msg = some (p.1, gs) := by
  obtain ⟨gs, hgs⟩ : ∃ gs, p.2.matchStart msg = some gs := by
    apply Option.ne_none_iff_exists'.mp
    intro hnone
    exact Re.matchStart_eq_none.mp hnone st hst
  have htry : tryPattern msg p = some (p.1, gs) := by
    rw [tryPattern, hgs]
    rfl
  refine ⟨gs, ?_⟩
  rw [selectCommand_of_try hp hspecific (by simp [htry]), htry]

end Table

/-! Other orders -/

section Orders
variable {table order : List (Command × Re)}

/-- Another order of the table selects the same, as long as no catch-all comes before what it
would shadow. -/
theorem Reordering.select_eq (h : Reordering table) {msg : String}
    (hbehind : Unshadowed isSpecific (tryPattern msg) table) :
    selectFrom table msg = selectCommand msg := by
  have hspecific : specific.Perm (table.filter isSpecific) := (h.perm.filter isSpecific).symm
  calc
    selectFrom table msg = (table.filter isSpecific ++
        table.filter fun p => !isSpecific p).findSome? (tryPattern msg) :=
      hbehind.findSome?
    _ = (specific ++ catchAlls).findSome? (tryPattern msg) := by
      rw [List.findSome?_append, List.findSome?_append, h.kept,
        (specific_exclusive msg).findSome?_perm hspecific]
    _ = selectCommand msg := (patterns_unshadowed msg).findSome?.symm

/-- A specific pattern behind a catch-all that matches too is not selected. -/
theorem Reordering.unshadowed (h : Reordering table) {msg : String}
    (hselect : selectFrom table msg = selectCommand msg) :
    Unshadowed isSpecific (tryPattern msg) table := by
  have hnodup : table.Nodup := h.perm.nodup_iff.mpr (List.Nodup.of_map _ names_nodup)
  apply List.pairwise_iff_forall_sublist.mpr
  intro c p hcp hcatch hspecific hmatch
  have hp : p ∈ patterns := h.perm.mem_iff.mp (hcp.subset (by simp))
  have hfound := selectCommand_of_try hp hspecific hmatch
  apply none_before hnodup _ hcp (hselect.trans hfound) hmatch
  intro a ha b hb
  exact try_eq (h.perm.mem_iff.mp ha) (h.perm.mem_iff.mp hb)

theorem specific_of_mem (horder : order.Perm specific) {p : Command × Re} (hp : p ∈ order) :
    isSpecific p = true := (List.mem_filter.mp (horder.mem_iff.mp hp)).2

theorem other_of_mem {p : Command × Re} (hp : p ∈ catchAlls) : isSpecific p = false := by
  simpa using (List.mem_filter.mp hp).2

/-- Any order of the specific patterns, with the catch-alls behind them. -/
theorem reordering_behind (horder : order.Perm specific) : Reordering (order ++ catchAlls) where
  perm := (horder.append_right catchAlls).trans (List.filter_append_perm isSpecific patterns)
  kept := by
    have hnone : (order.filter fun p => !isSpecific p) = [] := by
      rw [List.filter_eq_nil_iff]
      intro p hp
      rw [specific_of_mem horder hp]
      decide
    have hall : (catchAlls.filter fun p => !isSpecific p) = catchAlls := by
      rw [List.filter_eq_self]
      intro p hp
      rw [other_of_mem hp]
      rfl
    rw [List.filter_append, hnone, hall, List.nil_append]

theorem unshadowed_behind (horder : order.Perm specific) (msg : String) :
    Unshadowed isSpecific (tryPattern msg) (order ++ catchAlls) := by
  have hfirst : ∀ c ∈ order, ∀ p, isSpecific c = false → isSpecific p = true →
      tryPattern msg p ≠ none → tryPattern msg c = none := by
    intro c hc p hother
    rw [specific_of_mem horder hc] at hother
    cases hother
  apply List.pairwise_append.mpr
  refine ⟨List.pairwise_of_forall_mem_list fun c hc p _ => hfirst c hc p, ?_,
    fun c hc p _ => hfirst c hc p⟩
  apply List.pairwise_of_forall_mem_list
  intro c _ p hp _ hspecific
  rw [other_of_mem hp] at hspecific
  cases hspecific

end Orders

/-- No message has two specific patterns and no catch-all hides one, so every order
selects the same in which none is hidden. -/
theorem selectCommand_unambiguous :
    (∀ msg, Exclusive (tryPattern msg) specific) ∧
    (∀ msg, Unshadowed isSpecific (tryPattern msg) patterns) ∧
    (∀ order : List (Command × Re), order.Perm specific → ∀ msg,
      selectFrom (order ++ catchAlls) msg = selectCommand msg ∧
      ∀ env player, handleCommandWith (order ++ catchAlls) env player msg =
        handleCommand env player msg) ∧
    ∀ table, Reordering table → ∀ msg,
      (selectFrom table msg = selectCommand msg ↔
        Unshadowed isSpecific (tryPattern msg) table) := by
  refine ⟨specific_exclusive, patterns_unshadowed, ?_, ?_⟩
  · intro order horder msg
    have hselect := (reordering_behind horder).select_eq (unshadowed_behind horder msg)
    exact ⟨hselect, handleCommandWith_eq hselect⟩
  · intro table htable msg
    exact ⟨htable.unshadowed, htable.select_eq⟩

theorem reversed_order_selects :
    selectFrom (specific.reverse ++ catchAlls) "mkt unwatch 7, 8" =
      some (.unwatchBulk, [(1, "7, 8")]) := by
  have hsame := selectCommand_unambiguous.2.2.1 specific.reverse (List.reverse_perm _)
    "mkt unwatch 7, 8"
  rw [hsame.1]
  rfl

end AoMarket.CommandRouting
