import AoMarket.CommandWords

/-!
The shape of a message that matches a pattern of the `market` command: one line a
command says which words follow the prefix and what the groups are. Every pattern
keeps to its line, so what a message selects can be read off its words.
-/

namespace AoMarket.CommandShapes

open PyText Regex Commands Pieces CommandWords

def Confirmable (command args : List String) (gs : Groups) : Prop :=
  (args.map foldWord = command ∧ gs = []) ∨
    ∃ w, args.map foldWord = command ++ ["confirm"] ∧ args.getLast? = some w ∧ gs = [(1, w)]

def Shape (args : List String) (gs : Groups) : Command → Prop
  | .register => args.map foldWord = ["register"]
  | .unregister => Confirmable ["unregister"] args gs
  | .untrackAll => Confirmable ["untrack", "all"] args gs
  | .apikeyGenerate => args.map foldWord = ["apikey", "generate"]
  | .apikeyRevoke => Confirmable ["apikey", "revoke"] args gs
  | .apikeyList => args.map foldWord = ["apikey", "list"]
  | .statusDetails => args.map foldWord = ["status", "details"]
  | .status => args.map foldWord = ["status"]
  | .watchlist => args.map foldWord = ["watchlist"]
  | .userStats => ∃ v rest, args = v :: rest ∧ foldWord v = "user"
  | .filterPrice => ∃ v u n rest, args = v :: u :: n :: rest ∧ foldWord v = "filter" ∧
      foldWord u = "price" ∧ IsNumber n
  | .filterQl => ∃ v u n rest, args = v :: u :: n :: rest ∧ foldWord v = "filter" ∧
      foldWord u = "ql" ∧ IsNumber n
  | .filterClear => ∃ v u n, args = [v, u, n] ∧ foldWord v = "filter" ∧
      foldWord u = "clear" ∧ IsNumber n
  | .filterShow => ∃ v n, args = [v, n] ∧ foldWord v = "filter" ∧ IsNumber n
  | .unwatchAll => Confirmable ["unwatch", "all"] args gs
  | .unwatchBulk => ∃ v, ∃ t : NumberList, args = v :: words t.text ∧ foldWord v = "unwatch" ∧
      gs = [(1, String.ofList t.text)]
  | .unwatch => ∃ v n, args = [v, n] ∧ foldWord v = "unwatch" ∧ IsNumber n ∧ gs = [(1, n)]
  | .watchAoid => ∃ v n, args = [v, n] ∧ foldWord v = "watch" ∧ IsNumber n
  | .watchSearch => ∃ v rest, args = v :: rest ∧ foldWord v = "watch"
  | .overview => ∃ n, args = [n] ∧ IsNumber n
  | .search => True

section Bodies
variable {l rest : List Char} {gs gs' : Groups} {s t : String}

theorem shape_one (hs : plainWord s = true)
    (h : (rest, gs') ∈ Re.results (.all (word s :: finish)) (l, gs)) :
    (words l).map foldWord = [s] := by
  obtain ⟨w, hwords, hfold, _⟩ := read_last hs h
  rw [hwords, List.map_singleton, hfold]

theorem shape_two (hs : plainWord s = true) (ht : plainWord t = true)
    (h : (rest, gs') ∈ Re.results (.all (word s :: space.plus :: word t :: finish)) (l, gs)) :
    (words l).map foldWord = [s, t] := by
  obtain ⟨w, tail, hwords, hfold, h⟩ := read_word hs h
  rw [hwords, List.map_cons, hfold, shape_one ht h]

/-- The words that such a pattern reads are those of its command, with the
confirmation captured. -/
theorem shape_confirm (hs : plainWord s = true)
    (h : (rest, gs') ∈ Re.results (.all (word s :: confirm :: finish)) (l, [])) :
    Confirmable [s] (words l) gs' := by
  obtain ⟨w, hfold, hread⟩ := read_confirm hs h
  rcases hread with ⟨hwords, hgs⟩ | ⟨v, hwords, hconfirm, hgs⟩
  · left
    rw [hwords, List.map_singleton, hfold]
    exact ⟨rfl, hgs⟩
  · right
    refine ⟨v, ?_, ?_, hgs⟩
    · rw [hwords, List.map_cons, List.map_singleton, hfold, hconfirm]
      rfl
    · rw [hwords]
      rfl

theorem Confirmable.cons {w : String} {command args : List String}
    (hfold : foldWord w = s) (h : Confirmable command args gs) :
    Confirmable (s :: command) (w :: args) gs := by
  rcases h with ⟨hargs, hgs⟩ | ⟨v, hargs, hlast, hgs⟩
  · left
    rw [List.map_cons, hargs, hfold]
    exact ⟨rfl, hgs⟩
  · right
    refine ⟨v, ?_, ?_, hgs⟩
    · rw [List.map_cons, hargs, hfold, List.cons_append]
    · rw [List.getLast?_cons, hlast]
      rfl

theorem shape_two_confirm (hs : plainWord s = true) (ht : plainWord t = true)
    (h : (rest, gs') ∈ Re.results (.all (word s :: space.plus :: word t :: confirm :: finish))
      (l, [])) : Confirmable [s, t] (words l) gs' := by
  obtain ⟨w, tail, hwords, hfold, h⟩ := read_word hs h
  rw [hwords]
  exact (shape_confirm ht h).cons hfold

theorem shape_number (hs : plainWord s = true)
    (h : (rest, gs') ∈ Re.results (.all (word s :: space.plus :: number :: finish)) (l, gs)) :
    ∃ v n, words l = [v, n] ∧ foldWord v = s ∧ IsNumber n ∧ gs' = (1, n) :: gs := by
  obtain ⟨v, tail, hwords, hfold, h⟩ := read_word hs h
  obtain ⟨n, hnumber, hn, hgs⟩ := number_last h
  exact ⟨v, n, by rw [hwords, hnumber], hfold, hn, hgs⟩

theorem shape_filter {r : Re} {rs : List Re} (ht : plainWord t = true)
    (h : (rest, gs') ∈ Re.results (.all (word "filter" :: space.plus :: word t :: space.plus ::
      number :: space.plus :: r :: rs)) (l, gs)) :
    ∃ v u n args, words l = v :: u :: n :: args ∧ foldWord v = "filter" ∧ foldWord u = t ∧
      IsNumber n := by
  obtain ⟨v, tail, hwords, hv, h⟩ := read_word (by decide) h
  obtain ⟨u, tail', hwords', hu, h⟩ := read_word ht h
  obtain ⟨n, tail'', hnumber, hn, h⟩ := number_word h
  exact ⟨v, u, n, words tail'', by rw [hwords, hwords', hnumber], hv, hu, hn⟩

/-- The words that the bulk pattern reads are `unwatch` and a list of numbers. -/
theorem shape_list
    (h : (rest, gs') ∈ Re.results (.all (word "unwatch" :: space.plus ::
      .group 1 (.seq digit.plus (Re.plus (.seq separator digit.plus))) :: finish)) (l, gs)) :
    ∃ v, ∃ t : NumberList, words l = v :: words t.text ∧ foldWord v = "unwatch" ∧
      gs' = (1, String.ofList t.text) :: gs := by
  obtain ⟨v, tail, hwords, hv, h⟩ := read_word (by decide) h
  rw [finish, Re.mem_all_cons] at h
  obtain ⟨⟨mid, gs₁⟩, hlist, h⟩ := h
  obtain ⟨t, rfl, rfl⟩ := read_list hlist
  obtain ⟨hsp, hgs⟩ := read_finish h
  refine ⟨v, t, ?_, hv, hgs⟩
  rw [hwords, words, words, pieces_trailing hsp]

end Bodies

/-- `market` or `mkt`, and space after it. -/
theorem read_prefix {b : Re} {bs : List Re} {l rest : List Char} {gs gs' : Groups}
    (h : (rest, gs') ∈ Re.results (pattern (b :: bs)) (l, gs)) :
    ∃ cmd tail, words l = cmd :: words tail ∧ (foldWord cmd = "market" ∨ foldWord cmd = "mkt") ∧
      (rest, gs') ∈ Re.results (.all (b :: bs)) (tail, gs) := by
  have hsplit : (rest, gs') ∈ Re.results (.all (.alt (word "market") (word "mkt") ::
    space.plus :: b :: bs)) (l, gs) := h
  rw [Re.mem_all_cons] at hsplit
  obtain ⟨mid, hname, hrest⟩ := hsplit
  rcases Re.mem_alt.mp hname with hname | hname
  · obtain ⟨cmd, tail, hwords, hfold, h⟩ := read_word (s := "market") (by decide)
      (Re.mem_all_cons.mpr ⟨mid, hname, hrest⟩)
    exact ⟨cmd, tail, hwords, Or.inl hfold, h⟩
  · obtain ⟨cmd, tail, hwords, hfold, h⟩ := read_word (s := "mkt") (by decide)
      (Re.mem_all_cons.mpr ⟨mid, hname, hrest⟩)
    exact ⟨cmd, tail, hwords, Or.inr hfold, h⟩

/-- What a pattern reads after the prefix has the shape of its command. -/
def Shaped (name : Command) (body : List Re) : Prop :=
  ∀ l rest gs, (rest, gs) ∈ Re.results (.all body) (l, []) → Shape (words l) gs name

/-- No pattern of the table reads words of another shape than its command's. -/
theorem patterns_shaped : ∀ p ∈ patterns, ∃ b bs, p.2 = pattern (b :: bs) ∧ Shaped p.1 (b :: bs) := by
  simp only [patterns, List.forall_mem_cons]
  refine ⟨?_, ?_, ?_, ?_, ?_, ?_, ?_, ?_, ?_, ?_, ?_, ?_, ?_, ?_, ?_, ?_, ?_, ?_, ?_, ?_, ?_, ?_⟩
  · exact ⟨_, _, rfl, fun l rest gs h => shape_one (by decide) h⟩
  · exact ⟨_, _, rfl, fun l rest gs h => shape_confirm (by decide) h⟩
  · exact ⟨_, _, rfl, fun l rest gs h => shape_two_confirm (by decide) (by decide) h⟩
  · exact ⟨_, _, rfl, fun l rest gs h => shape_two (by decide) (by decide) h⟩
  · exact ⟨_, _, rfl, fun l rest gs h => shape_two_confirm (by decide) (by decide) h⟩
  · exact ⟨_, _, rfl, fun l rest gs h => shape_two (by decide) (by decide) h⟩
  · exact ⟨_, _, rfl, fun l rest gs h => shape_two (by decide) (by decide) h⟩
  · exact ⟨_, _, rfl, fun l rest gs h => shape_one (by decide) h⟩
  · exact ⟨_, _, rfl, fun l rest gs h => shape_one (by decide) h⟩
  · refine ⟨_, _, rfl, fun l rest gs h => ?_⟩
    obtain ⟨v, tail, hwords, hv, _⟩ := read_word (s := "user") (by decide) h
    exact ⟨v, words tail, hwords, hv⟩
  · exact ⟨_, _, rfl, fun l rest gs h => shape_filter (by decide) h⟩
  · exact ⟨_, _, rfl, fun l rest gs h => shape_filter (by decide) h⟩
  · refine ⟨_, _, rfl, fun l rest gs h => ?_⟩
    obtain ⟨v, tail, hwords, hv, h⟩ := read_word (s := "filter") (by decide) h
    obtain ⟨u, n, htail, hu, hn, _⟩ := shape_number (s := "clear") (by decide) h
    exact ⟨v, u, n, by rw [hwords, htail], hv, hu, hn⟩
  · refine ⟨_, _, rfl, fun l rest gs h => ?_⟩
    obtain ⟨v, n, hwords, hv, hn, _⟩ := shape_number (s := "filter") (by decide) h
    exact ⟨v, n, hwords, hv, hn⟩
  · exact ⟨_, _, rfl, fun l rest gs h => shape_two_confirm (by decide) (by decide) h⟩
  · exact ⟨_, _, rfl, fun l rest gs h => shape_list h⟩
  · exact ⟨_, _, rfl, fun l rest gs h => shape_number (by decide) h⟩
  · refine ⟨_, _, rfl, fun l rest gs h => ?_⟩
    obtain ⟨v, n, hwords, hv, hn, _⟩ := shape_number (s := "watch") (by decide) h
    exact ⟨v, n, hwords, hv, hn⟩
  · refine ⟨_, _, rfl, fun l rest gs h => ?_⟩
    obtain ⟨v, tail, hwords, hv, _⟩ := read_word (s := "watch") (by decide) h
    exact ⟨v, words tail, hwords, hv⟩
  · refine ⟨_, _, rfl, fun l rest gs h => ?_⟩
    obtain ⟨n, hwords, hn, _⟩ := number_last h
    exact ⟨n, hwords, hn⟩
  · exact ⟨_, _, rfl, fun l rest gs h => trivial⟩
  · exact fun p hp => absurd hp List.not_mem_nil

/-- The words of a message that matches the pattern of a command. -/
def Reads (msg : List Char) (gs : Groups) (name : Command) : Prop :=
  ∃ cmd args, words msg = cmd :: args ∧ (foldWord cmd = "market" ∨ foldWord cmd = "mkt") ∧
    Shape args gs name

theorem reads_of_match {p : Command × Re} (hp : p ∈ patterns) {msg : List Char}
    {st : List Char × Groups} (h : st ∈ Re.results p.2 (msg, [])) : Reads msg st.2 p.1 := by
  obtain ⟨b, bs, hpattern, hshaped⟩ := patterns_shaped p hp
  rw [hpattern] at h
  obtain ⟨cmd, tail, hwords, hcmd, h⟩ := read_prefix h
  exact ⟨cmd, words tail, hwords, hcmd, hshaped tail st.1 st.2 h⟩

/-- The command a message selects, by the words of the message. -/
theorem reads_of_select {msg : String} {name : Command} {gs : Groups}
    (h : selectCommand msg = some (name, gs)) : Reads msg.toList gs name := by
  unfold selectCommand at h
  obtain ⟨p, hp, hmatch⟩ := List.exists_of_findSome?_eq_some h
  obtain ⟨gs', hgs, heq⟩ := Option.map_eq_some_iff.mp hmatch
  obtain ⟨rfl, rfl⟩ := Prod.mk.inj heq
  obtain ⟨rest, hrest⟩ := Re.matchStart_mem hgs
  exact reads_of_match hp hrest

end AoMarket.CommandShapes
