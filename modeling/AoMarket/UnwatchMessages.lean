import AoMarket.CommandRouting

/-!
The messages that unwatch by number, and the commands they select. What follows the
word `unwatch` is a list of numbers or one number, with any space and commas; the pattern
for it matches, and a specific pattern that matches is selected.
-/

namespace AoMarket.UnwatchMessages

open PyText Regex Commands Pieces CommandWords CommandShapes CommandRouting

/-- `market unwatch` and what follows it, space at the end aside. -/
structure Unwatches (body : List Char) (msg : String) where
  cmd : List Char
  gap : List Char
  verb : List Char
  gap' : List Char
  after : List Char
  split : msg.toList = cmd ++ (gap ++ (verb ++ (gap' ++ (body ++ after))))
  market : cmd.map foldLetter = "market".toList ∨ cmd.map foldLetter = "mkt".toList
  unwatch : verb.map foldLetter = "unwatch".toList
  gap_space : gap ≠ [] ∧ ∀ c ∈ gap, isSpace c = true
  gap'_space : gap' ≠ [] ∧ ∀ c ∈ gap', isSpace c = true
  after_space : ∀ c ∈ after, isSpace c = true

section Words
variable {body : List Char} {msg : String}

theorem Unwatches.words (m : Unwatches body msg) :
    ∃ cmd verb, words msg.toList = cmd :: verb :: words body ∧ foldWord verb = "unwatch" := by
  have hcmd : m.cmd ≠ [] ∧ ∀ c ∈ m.cmd, isSpace c = false := by
    rcases m.market with h | h
    · exact ⟨(run_plain (by decide) h).1, (run_plain (by decide) h).2.1⟩
    · exact ⟨(run_plain (by decide) h).1, (run_plain (by decide) h).2.1⟩
  obtain ⟨hverb, hplain, hfold⟩ := run_plain (by decide) m.unwatch
  refine ⟨String.ofList m.cmd, String.ofList m.verb, ?_, hfold⟩
  rw [m.split, words_run_space hcmd.1 hcmd.2 m.gap_space.1 m.gap_space.2,
    words_run_space hverb hplain m.gap'_space.1 m.gap'_space.2]
  congr 2
  unfold CommandWords.words
  rw [pieces_trailing m.after_space]

end Words

/-! The patterns do match -/

section Matching
variable {l : List Char} {gs gs' : Groups}

theorem mem_finish (h : ∀ c ∈ l, isSpace c = true) :
    ([], gs) ∈ Re.results (.all finish) (l, gs) := by
  refine Re.mem_seq.mpr ⟨([], gs), ?_, Re.mem_dollar.mpr ⟨Or.inl rfl, rfl, rfl⟩⟩
  rw [space_eq, Re.mem_star_char]
  exact ⟨l, h, (List.append_nil l).symm, rfl⟩

/-- What is read for a word and the space after it can be read. -/
theorem mem_word_space {s : String} {run sp tail : List Char} {r : Re} {rs : List Re}
    {st : List Char × Groups} (hrun : run.map foldLetter = s.toList)
    (hsp : sp ≠ [] ∧ ∀ c ∈ sp, isSpace c = true) (h : st ∈ Re.results (.all (r :: rs)) (tail, gs)) :
    st ∈ Re.results (.all (word s :: space.plus :: r :: rs)) (run ++ (sp ++ tail), gs) := by
  refine Re.mem_all_cons.mpr ⟨(sp ++ tail, gs), mem_word.mpr ⟨run, hrun, rfl, rfl⟩, ?_⟩
  refine Re.mem_all_cons.mpr ⟨(tail, gs), ?_, h⟩
  exact Re.mem_plus_char.mpr ⟨sp, hsp.1, hsp.2, rfl, rfl⟩

theorem mem_prefix {body : List Char} {msg : String} (m : Unwatches body msg) {r : Re} {rs : List Re}
    {st : List Char × Groups} (h : st ∈ Re.results (.all (r :: rs)) (body ++ m.after, [])) :
    st ∈ Re.results (pattern (word "unwatch" :: space.plus :: r :: rs)) (msg.toList, []) := by
  have hverb := mem_word_space m.unwatch m.gap'_space h
  rw [m.split]
  show st ∈ Re.results (.all (.alt (word "market") (word "mkt") :: space.plus ::
    word "unwatch" :: space.plus :: r :: rs)) _
  rcases m.market with hcmd | hcmd
  · obtain ⟨mid, hname, hrest⟩ := Re.mem_all_cons.mp (mem_word_space hcmd m.gap_space hverb)
    exact Re.mem_all_cons.mpr ⟨mid, Re.mem_alt.mpr (Or.inl hname), hrest⟩
  · obtain ⟨mid, hname, hrest⟩ := Re.mem_all_cons.mp (mem_word_space hcmd m.gap_space hverb)
    exact Re.mem_all_cons.mpr ⟨mid, Re.mem_alt.mpr (Or.inr hname), hrest⟩

theorem mem_digits {n : String} (h : IsNumber n) (tail : List Char) :
    (tail, gs) ∈ Re.results digit.plus (n.toList ++ tail, gs) :=
  Re.mem_plus_char.mpr ⟨n.toList, h.1, h.2, rfl, rfl⟩

theorem mem_number {n : String} (h : IsNumber n) (tail : List Char) :
    (tail, (1, n) :: gs) ∈ Re.results number (n.toList ++ tail, gs) := by
  refine Re.mem_group.mpr ⟨n.toList, gs, rfl, mem_digits h tail, ?_⟩
  rw [String.ofList_toList]

/-- Each separator and number is one turn of the loop. -/
theorem turn_of_number {p : List Char × String}
    (hsep : p.1 ≠ [] ∧ ∀ c ∈ p.1, isSeparator c = true) (hnumber : IsNumber p.2)
    (tail : List Char) :
    Re.Turn (.seq separator digit.plus) (p.1 ++ (p.2.toList ++ tail), gs) (tail, gs) := by
  constructor
  · refine Re.mem_seq.mpr ⟨(p.2.toList ++ tail, gs), ?_, mem_digits hnumber tail⟩
    exact Re.mem_plus_char.mpr ⟨p.1, hsep.1, hsep.2, rfl, rfl⟩
  · have hlength := List.length_pos_of_ne_nil hsep.1
    simp only [List.length_append]
    omega

theorem turns_of_numbers {turns : List (List Char × String)}
    (h : ∀ p ∈ turns, (p.1 ≠ [] ∧ ∀ c ∈ p.1, isSeparator c = true) ∧ IsNumber p.2)
    (tail : List Char) : Relation.ReflTransGen (Re.Turn (.seq separator digit.plus))
      ((turns.flatMap fun p => p.1 ++ p.2.toList) ++ tail, gs) (tail, gs) := by
  induction turns with
  | nil => exact .refl
  | cons p turns ih =>
    obtain ⟨hp, hturns⟩ := List.forall_mem_cons.mp h
    rw [List.flatMap_cons, List.append_assoc, List.append_assoc]
    exact .head (turn_of_number hp.1 hp.2 _) (ih hturns)

theorem mem_list (t : NumberList) (tail : List Char) : (tail, (1, String.ofList t.text) :: gs) ∈
    Re.results (.group 1 (.seq digit.plus (Re.plus (.seq separator digit.plus))))
      (t.text ++ tail, gs) := by
  obtain ⟨p, turns, hrest⟩ := List.exists_cons_of_ne_nil t.two
  have hfirst : IsNumber t.first := t.numbers _ List.mem_cons_self
  have hturns : ∀ q ∈ p :: turns,
      (q.1 ≠ [] ∧ ∀ c ∈ q.1, isSeparator c = true) ∧ IsNumber q.2 := by
    intro q hq
    rw [← hrest] at hq
    exact ⟨t.separators q hq, t.numbers _ (List.mem_cons_of_mem _ (List.mem_map_of_mem hq))⟩
  obtain ⟨hp, hothers⟩ := List.forall_mem_cons.mp hturns
  have htext : t.text ++ tail = t.first.toList ++
      (p.1 ++ (p.2.toList ++ ((turns.flatMap fun p => p.1 ++ p.2.toList) ++ tail))) := by
    unfold NumberList.text
    rw [hrest, List.flatMap_cons]
    simp only [List.append_assoc]
  refine Re.mem_group.mpr ⟨t.text, gs, rfl, ?_, rfl⟩
  rw [htext]
  refine Re.mem_seq.mpr ⟨_, mem_digits hfirst _, ?_⟩
  refine Re.mem_seq.mpr ⟨_, (turn_of_number hp.1 hp.2 _).1, ?_⟩
  exact Re.mem_star.mpr (turns_of_numbers hothers tail)

end Matching

/-! The command that is selected -/

section Selection
variable {msg : String}

/-- The numbers of a list are those of its words. -/
theorem all_of_words {t t' : NumberList} (h : words t'.text = words t.text) : t'.all = t.all := by
  rw [← numerals_text t', ← numerals_text t, numerals_words, numerals_words, h]

/-- A message with several numerals selects the bulk command, which captures them. -/
theorem select_bulk {t : NumberList} (m : Unwatches t.text msg) :
    ∃ t' : NumberList, t'.all = t.all ∧
      selectCommand msg = some (.unwatchBulk, [(1, String.ofList t'.text)]) := by
  have hmatch : ([], [(1, String.ofList t.text)]) ∈ Re.results
      (pattern ([word "unwatch", space.plus,
        .group 1 (.seq digit.plus (Re.plus (.seq separator digit.plus)))] ++ finish))
      (msg.toList, []) := by
    apply mem_prefix m
    exact Re.mem_all_cons.mpr ⟨_, mem_list t m.after, mem_finish m.after_space⟩
  obtain ⟨gs, hselect⟩ := select_of_match (List.mem_of_getElem? (i := 15) rfl) rfl hmatch
  -- whichever way the loop went, the captured text has the same words
  obtain ⟨cmd, args, hwords, _, v, t', rfl, _, rfl⟩ := reads_of_select hselect
  obtain ⟨cmd', verb, hwords', _⟩ := m.words
  rw [hwords'] at hwords
  have htexts : words t.text = words t'.text := (List.cons.inj (List.cons.inj hwords).2).2
  exact ⟨t', all_of_words htexts.symm, hselect⟩

/-- A message with one numeral selects the single command. -/
theorem select_one {n : String} (hn : IsNumber n) (m : Unwatches n.toList msg) :
    selectCommand msg = some (.unwatch, [(1, n)]) := by
  have hmatch : ([], [(1, n)]) ∈ Re.results
      (pattern ([word "unwatch", space.plus, number] ++ finish)) (msg.toList, []) := by
    apply mem_prefix m
    exact Re.mem_all_cons.mpr ⟨_, mem_number hn m.after, mem_finish m.after_space⟩
  obtain ⟨gs, hselect⟩ := select_of_match (List.mem_of_getElem? (i := 16) rfl) rfl hmatch
  obtain ⟨cmd, args, hwords, _, v, n', rfl, _, _, rfl⟩ := reads_of_select hselect
  have hwords₁ : words n.toList = [n] := by
    unfold CommandWords.words
    rw [pieces_of_run hn.1 fun c hc => isSpace_of_digit (hn.2 c hc), List.map_singleton,
      String.ofList_toList]
  obtain ⟨cmd', verb, hwords', _⟩ := m.words
  rw [hwords', hwords₁] at hwords
  have hsame : [n] = [n'] := (List.cons.inj (List.cons.inj hwords).2).2
  rw [hselect, (List.cons.inj hsame).1]

end Selection

end AoMarket.UnwatchMessages
