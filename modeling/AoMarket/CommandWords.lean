import AoMarket.Commands
import AoMarket.Matches
import AoMarket.Pieces

/-!
The words of a message that matches a pattern. Each pattern is a row of words with
space between them, so it is read word by word; a number is a word of digits, and a
list of numbers is read turn by turn.
-/

namespace AoMarket.CommandWords

open PyText Regex Commands Pieces

/-- `msg.split()`. -/
def words (l : List Char) : List String := (pieces isSpace l).map String.ofList

/-- A word under IGNORECASE. -/
def foldWord (w : String) : String := String.ofList (w.toList.map foldLetter)

def plainWord (s : String) : Bool := !s.toList.isEmpty && s.toList.all fun c => !isSpace c

/-- `[0-9]+`. -/
def IsNumber (n : String) : Prop := n.toList ≠ [] ∧ ∀ c ∈ n.toList, (digitValue c).isSome = true

def numerals (l : List Char) : List String :=
  (pieces (fun c => (digitValue c).isNone) l).map String.ofList

section Characters
variable {c : Char}

theorem isSpace_of_digit (h : (digitValue c).isSome = true) : isSpace c = false := by
  unfold digitValue at h
  by_cases hrange : '0' ≤ c ∧ c ≤ '9'
  · apply isSpace_of_isDigit
    simpa [Char.isDigit, Char.le_def] using hrange
  · rw [if_neg hrange] at h
    cases h

/-- No space folds to a letter. -/
theorem foldLetter_space (h : isSpace c = true) : foldLetter c = c := by
  unfold isSpace at h
  unfold foldLetter
  simp only [Bool.or_eq_true, Bool.and_eq_true, decide_eq_true_eq, beq_iff_eq] at h
  have hletter : ¬ (65 ≤ c.toNat ∧ c.toNat ≤ 90) := by omega
  have hi : ¬ (c.toNat = 0x130 ∨ c.toNat = 0x131) := by omega
  have hs : ¬ c.toNat = 0x17f := by omega
  have hk : ¬ c.toNat = 0x212a := by omega
  simp only [if_neg hletter, if_neg hi, if_neg hs, if_neg hk]

theorem foldLetter_digit (h : (digitValue c).isSome = true) : foldLetter c = c := by
  unfold digitValue at h
  by_cases hrange : '0' ≤ c ∧ c ≤ '9'
  · have hhigh : c.toNat ≤ 57 := hrange.2
    have hletter : ¬ (65 ≤ c.toNat ∧ c.toNat ≤ 90) := by omega
    have hi : ¬ (c.toNat = 0x130 ∨ c.toNat = 0x131) := by omega
    have hs : ¬ c.toNat = 0x17f := by omega
    have hk : ¬ c.toNat = 0x212a := by omega
    unfold foldLetter
    simp only [if_neg hletter, if_neg hi, if_neg hs, if_neg hk]
  · rw [if_neg hrange] at h
    cases h

end Characters

/-! Words and space -/

section Words
variable {run sp l : List Char} {s : String}

theorem foldWord_ofList (run : List Char) : foldWord (String.ofList run) =
    String.ofList (run.map foldLetter) := by
  rw [foldWord, String.toList_ofList]

/-- What is read for a word of a pattern is one word. -/
theorem run_plain (hs : plainWord s = true) (hrun : run.map foldLetter = s.toList) :
    run ≠ [] ∧ (∀ c ∈ run, isSpace c = false) ∧ foldWord (String.ofList run) = s := by
  obtain ⟨hne, hall⟩ := Bool.and_eq_true_iff.mp hs
  refine ⟨?_, ?_, ?_⟩
  · rintro rfl
    rw [← hrun] at hne
    simp at hne
  · intro c hc
    by_contra hspace
    have hmem : foldLetter c ∈ s.toList := by
      rw [← hrun]
      exact List.mem_map_of_mem hc
    have hsame : foldLetter c = c := foldLetter_space (Bool.of_not_eq_false hspace)
    have hplain := List.all_eq_true.mp hall _ hmem
    rw [hsame] at hplain
    simp [hspace] at hplain
  · rw [foldWord_ofList, hrun, String.ofList_toList]

theorem words_run_space (hrun : run ≠ []) (h : ∀ c ∈ run, isSpace c = false) (hsp : sp ≠ [])
    (hspace : ∀ c ∈ sp, isSpace c = true) :
    words (run ++ (sp ++ l)) = String.ofList run :: words l := by
  unfold words
  rw [pieces_run_seps hrun h hsp hspace, List.map_cons]

theorem words_run_end (hrun : run ≠ []) (h : ∀ c ∈ run, isSpace c = false)
    (hspace : ∀ c ∈ sp, isSpace c = true) : words (run ++ sp) = [String.ofList run] := by
  unfold words
  rw [pieces_trailing hspace, pieces_of_run hrun h]
  rfl

/-- The numerals of a text are those of its words. -/
theorem numerals_words (l : List Char) :
    numerals l = (words l).flatMap fun w => numerals w.toList := by
  have hspace : ∀ c, isSpace c = true → (digitValue c).isNone = true := by
    intro c hc
    by_contra hdigit
    have hsome : (digitValue c).isSome = true := by
      rw [← Option.not_isNone, Bool.eq_false_of_not_eq_true hdigit]
      rfl
    rw [isSpace_of_digit hsome] at hc
    cases hc
  unfold numerals words
  rw [pieces_flatMap hspace, List.map_flatMap, List.flatMap_map]
  simp only [String.toList_ofList]

theorem IsNumber.numerals {n : String} (h : IsNumber n) : numerals n.toList = [n] := by
  unfold CommandWords.numerals
  rw [pieces_of_run h.1 fun c hc => by
    rw [← Option.not_isSome, h.2 c hc]
    rfl]
  rw [List.map_singleton, String.ofList_toList]

/-- IGNORECASE leaves numbers alone. -/
theorem IsNumber.foldWord {n : String} (h : IsNumber n) : foldWord n = n := by
  have hmap : n.toList.map foldLetter = n.toList :=
    (List.map_congr_left fun c hc => foldLetter_digit (h.2 c hc)).trans (List.map_id' n.toList)
  rw [CommandWords.foldWord, hmap, String.ofList_toList]

end Words

/-! The value of a number -/

def numberOf (n : String) : ℤ := Nat.ofDigitChars 10 n.toList 0

theorem isDigit_of_digit {c : Char} (h : (digitValue c).isSome = true) : c.isDigit := by
  unfold digitValue at h
  by_cases hrange : '0' ≤ c ∧ c ≤ '9'
  · simpa [Char.isDigit, Char.le_def] using hrange
  · rw [if_neg hrange] at h
    cases h

theorem IsNumber.isDigit {n : String} (h : IsNumber n) : ∀ c ∈ n.toList, c.isDigit :=
  fun c hc => isDigit_of_digit (h.2 c hc)

theorem digits_counted (py : Runtime) {n : String} (h : IsNumber n) :
    (n.toList.filter fun c => (py.decimal c).isSome) = n.toList := by
  apply List.filter_eq_self.mpr
  intro c hc
  rw [decimal_of_isDigit py c (h.isDigit c hc)]
  rfl

theorem IsNumber.parse (py : Runtime) {n : String} (h : IsNumber n)
    (hsize : n.length ≤ maxStrDigits) : parseInt py.decimal n = some (numberOf n) := by
  rw [parseInt_digits h.isDigit, digits_counted py h, String.length_toList, if_pos hsize,
    readDigits_of_isDigit (decimal_of_isDigit py) h.isDigit h.1]
  rfl

/-- Leading zeros count: a longer run of digits is no number for `int()`. -/
theorem IsNumber.parse_long (py : Runtime) {n : String} (h : IsNumber n)
    (hsize : maxStrDigits < n.length) : parseInt py.decimal n = none := by
  rw [parseInt_digits h.isDigit, digits_counted py h, String.length_toList, if_neg (by omega)]
  rfl

/-! Reading a pattern word by word -/

section Reading
variable {l rest : List Char} {gs gs' : Groups} {s : String}

theorem space_eq : space = Re.char isSpace := rfl

theorem read_finish (h : (rest, gs') ∈ Re.results (.all finish) (l, gs)) :
    (∀ c ∈ l, isSpace c = true) ∧ gs' = gs := by
  simp only [finish, Re.all, space_eq, Re.mem_seq, Prod.exists, Re.mem_star_char, Re.mem_dollar] at h
  obtain ⟨last, _, ⟨sp, hsp, rfl, rfl⟩, hend, rfl, rfl⟩ := h
  refine ⟨fun c hc => ?_, rfl⟩
  rcases List.mem_append.mp hc with hc | hc
  · exact hsp c hc
  · rcases hend with rfl | rfl
    · cases hc
    · rw [List.mem_singleton.mp hc]
      decide

/-- A word of the pattern, and space after it. -/
theorem read_word {r : Re} {rs : List Re} (hs : plainWord s = true)
    (h : (rest, gs') ∈ Re.results (.all (word s :: space.plus :: r :: rs)) (l, gs)) :
    ∃ w tail, words l = w :: words tail ∧ foldWord w = s ∧
      (rest, gs') ∈ Re.results (.all (r :: rs)) (tail, gs) := by
  rw [Re.mem_all_cons, space_eq] at h
  obtain ⟨⟨mid, gs₁⟩, hword, h⟩ := h
  rw [Re.mem_all_cons] at h
  obtain ⟨⟨tail, gs₂⟩, hspace, h⟩ := h
  obtain ⟨run, hrun, rfl, rfl⟩ := mem_word.mp hword
  obtain ⟨sp, hne, hsp, rfl, rfl⟩ := Re.mem_plus_char.mp hspace
  obtain ⟨hrun₀, hplain, hfold⟩ := run_plain hs hrun
  exact ⟨String.ofList run, tail, words_run_space hrun₀ hplain hne hsp, hfold, h⟩

/-- The last word of the pattern. -/
theorem read_last (hs : plainWord s = true)
    (h : (rest, gs') ∈ Re.results (.all (word s :: finish)) (l, gs)) :
    ∃ w, words l = [w] ∧ foldWord w = s ∧ gs' = gs := by
  rw [finish, Re.mem_all_cons] at h
  obtain ⟨⟨mid, gs₁⟩, hword, h⟩ := h
  obtain ⟨run, hrun, rfl, rfl⟩ := mem_word.mp hword
  obtain ⟨hsp, hgs⟩ := read_finish h
  obtain ⟨hrun₀, hplain, hfold⟩ := run_plain hs hrun
  exact ⟨String.ofList run, words_run_end hrun₀ hplain hsp, hfold, hgs⟩

/-- The last word of the pattern with `confirm` after it or not. -/
theorem read_confirm (hs : plainWord s = true)
    (h : (rest, gs') ∈ Re.results (.all (word s :: confirm :: finish)) (l, gs)) :
    ∃ w, foldWord w = s ∧ (words l = [w] ∧ gs' = gs ∨
      ∃ v, words l = [w, v] ∧ foldWord v = "confirm" ∧ gs' = (1, v) :: gs) := by
  rw [finish, Re.mem_all_cons] at h
  obtain ⟨⟨mid, gs₁⟩, hword, h⟩ := h
  rw [Re.mem_all_cons] at h
  obtain ⟨⟨mid', gs₂⟩, hconfirm, h⟩ := h
  obtain ⟨run, hrun, rfl, rfl⟩ := mem_word.mp hword
  obtain ⟨hrun₀, hplain, hfold⟩ := run_plain hs hrun
  obtain ⟨hsp, hgs⟩ := read_finish h
  refine ⟨String.ofList run, hfold, ?_⟩
  rw [confirm, Re.mem_opt] at hconfirm
  rcases hconfirm with hconfirm | hconfirm
  · right
    simp only [space_eq, Re.mem_seq, Prod.exists, Re.mem_plus_char, Re.mem_group, mem_word] at hconfirm
    obtain ⟨_, _, ⟨between, hne, hbetween, rfl, rfl⟩, read, _, hread, ⟨run', hrun', hsame, rfl⟩, rfl⟩ :=
      hconfirm
    have hsplit : read = run' := by
      rw [hsame] at hread
      exact (List.append_cancel_right hread).symm
    obtain ⟨hrun₁, hplain', hfold'⟩ := run_plain (s := "confirm") (by decide) hrun'
    rw [hsplit] at hgs
    rw [hsame]
    refine ⟨String.ofList run', ?_, hfold', hgs⟩
    rw [words_run_space hrun₀ hplain hne hbetween, words_run_end hrun₁ hplain' hsp]
  · obtain ⟨rfl, rfl⟩ := Prod.mk.inj hconfirm
    exact Or.inl ⟨words_run_end hrun₀ hplain hsp, hgs⟩

/-- What `[0-9]+` reads is a number. -/
theorem run_number {run : List Char} (hne : run ≠ [])
    (hrun : ∀ c ∈ run, (digitValue c).isSome = true) : IsNumber (String.ofList run) := by
  unfold IsNumber
  rw [String.toList_ofList]
  exact ⟨hne, hrun⟩

theorem read_number {mid : List Char} (h : (mid, gs') ∈ Re.results number (l, gs)) :
    ∃ run, run ≠ [] ∧ (∀ c ∈ run, (digitValue c).isSome = true) ∧ l = run ++ mid ∧
      gs' = (1, String.ofList run) :: gs := by
  simp only [number, digit, Re.mem_group, Re.mem_plus_char] at h
  obtain ⟨read, _, hread, ⟨run, hne, hrun, hsame, rfl⟩, hgs⟩ := h
  have hsplit : read = run := by
    rw [hsame] at hread
    exact (List.append_cancel_right hread).symm
  rw [hsplit] at hgs
  exact ⟨run, hne, hrun, hsame, hgs⟩

/-- A number, and space after it. -/
theorem number_word {r : Re} {rs : List Re}
    (h : (rest, gs') ∈ Re.results (.all (number :: space.plus :: r :: rs)) (l, gs)) :
    ∃ n tail, words l = n :: words tail ∧ IsNumber n ∧
      (rest, gs') ∈ Re.results (.all (r :: rs)) (tail, (1, n) :: gs) := by
  rw [Re.mem_all_cons, space_eq] at h
  obtain ⟨⟨mid, gs₁⟩, hnumber, h⟩ := h
  rw [Re.mem_all_cons] at h
  obtain ⟨⟨tail, gs₂⟩, hspace, h⟩ := h
  obtain ⟨run, hrun, hdigits, rfl, rfl⟩ := read_number hnumber
  obtain ⟨sp, hne, hsp, rfl, rfl⟩ := Re.mem_plus_char.mp hspace
  have hplain : ∀ c ∈ run, isSpace c = false := fun c hc => isSpace_of_digit (hdigits c hc)
  exact ⟨String.ofList run, tail, words_run_space hrun hplain hne hsp, run_number hrun hdigits, h⟩

/-- A number at the end of a message is its last word, and what is captured. -/
theorem number_last (h : (rest, gs') ∈ Re.results (.all (number :: finish)) (l, gs)) :
    ∃ n, words l = [n] ∧ IsNumber n ∧ gs' = (1, n) :: gs := by
  rw [finish, Re.mem_all_cons] at h
  obtain ⟨⟨mid, gs₁⟩, hnumber, h⟩ := h
  obtain ⟨run, hrun, hdigits, rfl, rfl⟩ := read_number hnumber
  obtain ⟨hsp, hgs⟩ := read_finish h
  have hplain : ∀ c ∈ run, isSpace c = false := fun c hc => isSpace_of_digit (hdigits c hc)
  exact ⟨String.ofList run, words_run_end hrun hplain hsp, run_number hrun hdigits, hgs⟩

end Reading

/-! Numbers with commas and space between them -/

def isSeparator (c : Char) : Bool := isSpace c || c == ','

/-- Two numbers or more, and what stands between them. -/
structure NumberList where
  first : String
  rest : List (List Char × String)
  numbers : ∀ n ∈ first :: rest.map Prod.snd, IsNumber n
  separators : ∀ p ∈ rest, p.1 ≠ [] ∧ ∀ c ∈ p.1, isSeparator c = true
  two : rest ≠ []

namespace NumberList

def all (t : NumberList) : List String := t.first :: t.rest.map Prod.snd

def text (t : NumberList) : List Char :=
  t.first.toList ++ t.rest.flatMap fun p => p.1 ++ p.2.toList

end NumberList

theorem isSeparator_of_digit {c : Char} (h : (digitValue c).isSome = true) :
    isSeparator c = false := by
  unfold isSeparator
  rw [isSpace_of_digit h, Bool.false_or, beq_eq_false_iff_ne]
  rintro rfl
  cases h

theorem digit_of_isSeparator {c : Char} (h : isSeparator c = true) :
    (digitValue c).isNone = true := by
  rw [← Option.not_isSome, Bool.not_eq_true']
  by_contra hdigit
  rw [isSeparator_of_digit (Bool.of_not_eq_false hdigit)] at h
  cases h

/-- Split at anything that separates numbers and is part of none. -/
theorem pieces_text {p : Char → Bool} (hsep : ∀ c, isSeparator c = true → p c = true)
    (hdigit : ∀ c, (digitValue c).isSome = true → p c = false) (t : NumberList) :
    (pieces p t.text).map String.ofList = t.all := by
  have hrest : ∀ (rest : List (List Char × String)) (first : String),
      (∀ n ∈ first :: rest.map Prod.snd, IsNumber n) →
      (∀ s ∈ rest, s.1 ≠ [] ∧ ∀ c ∈ s.1, isSeparator c = true) →
      (pieces p (first.toList ++ rest.flatMap fun s => s.1 ++ s.2.toList)).map String.ofList =
        first :: rest.map Prod.snd := by
    intro rest
    induction rest with
    | nil =>
      intro first hnumbers _
      have hfirst := hnumbers first List.mem_cons_self
      rw [List.flatMap_nil, List.append_nil,
        pieces_of_run hfirst.1 fun c hc => hdigit c (hfirst.2 c hc)]
      rw [List.map_singleton, String.ofList_toList, List.map_nil]
    | cons s rest ih =>
      intro first hnumbers hseps
      have hfirst := hnumbers first List.mem_cons_self
      have hs := hseps s List.mem_cons_self
      rw [List.flatMap_cons, List.append_assoc,
        pieces_run_seps hfirst.1 (fun c hc => hdigit c (hfirst.2 c hc)) hs.1
          fun c hc => hsep c (hs.2 c hc)]
      rw [List.map_cons, String.ofList_toList, List.map_cons]
      rw [ih s.2 (fun n hn => hnumbers n (List.mem_cons_of_mem first hn))
        fun s' hs' => hseps s' (List.mem_cons_of_mem s hs')]
  exact hrest t.rest t.first t.numbers t.separators

theorem numerals_text (t : NumberList) : numerals t.text = t.all := by
  refine pieces_text (fun c => digit_of_isSeparator) (fun c hc => ?_) t
  rw [← Option.not_isSome, hc]
  rfl

theorem text_chars (t : NumberList) :
    ∀ c ∈ t.text, (digitValue c).isSome = true ∨ isSeparator c = true := by
  intro c hc
  rcases List.mem_append.mp hc with hc | hc
  · exact Or.inl ((t.numbers _ List.mem_cons_self).2 c hc)
  · obtain ⟨p, hp, hc⟩ := List.mem_flatMap.mp hc
    rcases List.mem_append.mp hc with hc | hc
    · exact Or.inr ((t.separators p hp).2 c hc)
    · exact Or.inl ((t.numbers _ (List.mem_cons_of_mem _ (List.mem_map_of_mem hp))).2 c hc)

/-- Numbers and what separates them spell no word of the patterns. -/
theorem ne_all {body : List Char}
    (h : ∀ c ∈ body, (digitValue c).isSome = true ∨ isSeparator c = true) :
    ∀ w ∈ words body, foldWord w ≠ "all" := by
  intro w hw hfold
  obtain ⟨run, hrun, rfl⟩ := List.mem_map.mp hw
  rw [foldWord_ofList] at hfold
  have ha : 'a' ∈ run.map foldLetter := by
    rw [← String.toList_ofList (l := run.map foldLetter), hfold]
    decide
  obtain ⟨c, hc, hletter⟩ := List.mem_map.mp ha
  obtain ⟨hplain, hbody⟩ := (mem_pieces hrun).2 c hc
  rcases h c hbody with hdigit | hsep
  · rw [foldLetter_digit hdigit] at hletter
    rw [hletter] at hdigit
    exact absurd hdigit (by decide)
  · rw [isSeparator, hplain, Bool.false_or, beq_iff_eq] at hsep
    rw [hsep] at hletter
    exact absurd hletter (by decide)

/-- A list has two numbers or more. -/
theorem words_text_ne (t : NumberList) {n : String} (hn : IsNumber n) : words t.text ≠ [n] := by
  intro htext
  have hall : t.all = [n] := by
    rw [← numerals_text t, numerals_words, htext, List.flatMap_cons, hn.numerals]
    rfl
  have hlength := congrArg List.length hall
  have htwo := List.length_pos_of_ne_nil t.two
  simp only [NumberList.all, List.length_cons, List.length_map, List.length_nil] at hlength
  omega

theorem pieces_stripChars {p : Char → Bool} (h : ∀ c, isSpace c = true → p c = true)
    (l : List Char) : pieces p (stripChars l) = pieces p l := by
  obtain ⟨before, after, hsplit, hbefore, hafter⟩ := stripWith_split isSpace l
  rw [stripChars]
  conv_rhs => rw [hsplit]
  rw [pieces_trailing fun c hc => h c (hafter c hc), pieces_skip fun c hc => h c (hbefore c hc)]

theorem splitNumbers_eq (s : String) :
    splitNumbers s = (pieces isSeparator s.toList).map String.ofList := by
  have hempty : (fun w : List Char => decide (w ≠ [])) = fun w => !w.isEmpty := by
    funext w
    cases w with
    | nil => rfl
    | cons c cs => rfl
  show ((s.toList.splitOnP isSeparator).filter fun w => decide (w ≠ [])).map String.ofList = _
  rw [hempty]
  rfl

/-- The second split, of the text that was captured, gives the numbers again. -/
theorem splitNumbers_text (t : NumberList) :
    splitNumbers (strip (String.ofList t.text)) = t.all := by
  have hspace : ∀ c, isSpace c = true → isSeparator c = true := by
    intro c hc
    rw [isSeparator, hc, Bool.true_or]
  rw [splitNumbers_eq, strip, String.toList_ofList, String.toList_ofList,
    pieces_stripChars hspace]
  exact pieces_text (fun c hc => hc) (fun c => isSeparator_of_digit) t

/-! Reading a list of numbers -/

section Lists
variable {l rest : List Char} {gs gs' : Groups}

/-- One turn of the loop in the pattern. -/
theorem read_turn {mid : List Char}
    (h : (mid, gs') ∈ Re.results (.seq separator digit.plus) (l, gs)) :
    ∃ p : List Char × String, (p.1 ≠ [] ∧ ∀ c ∈ p.1, isSeparator c = true) ∧ IsNumber p.2 ∧
      l = p.1 ++ p.2.toList ++ mid ∧ gs' = gs := by
  simp only [separator, digit, Re.mem_seq, Prod.exists, Re.mem_plus_char] at h
  obtain ⟨_, _, ⟨sep, hne, hsep, rfl, rfl⟩, run, hrun, hdigits, rfl, rfl⟩ := h
  refine ⟨(sep, String.ofList run), ⟨hne, hsep⟩, run_number hrun hdigits, ?_, rfl⟩
  rw [String.toList_ofList, List.append_assoc]

/-- What the repetition reads are numbers with separators before them, by induction over
its turns. -/
theorem read_turns {st st' : List Char × Groups}
    (h : Relation.ReflTransGen (Re.Turn (.seq separator digit.plus)) st st') :
    ∃ turns : List (List Char × String),
      (∀ p ∈ turns, (p.1 ≠ [] ∧ ∀ c ∈ p.1, isSeparator c = true) ∧ IsNumber p.2) ∧
      st.1 = (turns.flatMap fun p => p.1 ++ p.2.toList) ++ st'.1 ∧ st'.2 = st.2 := by
  induction h using Relation.ReflTransGen.head_induction_on with
  | refl => exact ⟨[], by simp, rfl, rfl⟩
  | head hturn _ ih =>
    obtain ⟨p, hsep, hnumber, hread, hgs⟩ := read_turn hturn.1
    obtain ⟨turns, hturns, hrest, hgs'⟩ := ih
    refine ⟨p :: turns, fun q hq => ?_, ?_, hgs'.trans hgs⟩
    · rcases List.mem_cons.mp hq with rfl | hq
      · exact ⟨hsep, hnumber⟩
      · exact hturns q hq
    · rw [hread, hrest, List.flatMap_cons, List.append_assoc, List.append_assoc, List.append_assoc]

/-- The group of the bulk pattern holds numerals with separators between them. -/
theorem read_list {mid : List Char}
    (h : (mid, gs') ∈ Re.results
      (.group 1 (.seq digit.plus (Re.plus (.seq separator digit.plus)))) (l, gs)) :
    ∃ t : NumberList, l = t.text ++ mid ∧ gs' = (1, String.ofList t.text) :: gs := by
  rw [Re.mem_group] at h
  obtain ⟨read, gs₁, hread, hinner, hgs⟩ := h
  rw [Re.mem_seq] at hinner
  obtain ⟨⟨mid₁, gs₂⟩, hfirst, hinner⟩ := hinner
  rw [Re.plus, Re.mem_seq] at hinner
  obtain ⟨⟨mid₂, gs₃⟩, hturn, hstar⟩ := hinner
  obtain ⟨run, hrun, hdigits, rfl, rfl⟩ := Re.mem_plus_char.mp hfirst
  obtain ⟨p, hsep, hnumber, rfl, rfl⟩ := read_turn hturn
  obtain ⟨turns, hturns, hrest, hsame⟩ := read_turns (Re.mem_star.mp hstar)
  let t : NumberList := {
    first := String.ofList run
    rest := p :: turns
    numbers := by
      intro n hn
      rcases List.mem_cons.mp hn with rfl | hn
      · exact run_number hrun hdigits
      · rcases List.mem_cons.mp hn with rfl | hn
        · exact hnumber
        · obtain ⟨q, hq, rfl⟩ := List.mem_map.mp hn
          exact (hturns q hq).2
    separators := by
      intro q hq
      rcases List.mem_cons.mp hq with rfl | hq
      · exact hsep
      · exact (hturns q hq).1
    two := List.cons_ne_nil _ _
  }
  have htext : run ++ (p.1 ++ p.2.toList ++ mid₂) = t.text ++ mid := by
    show _ = (String.ofList run).toList ++ ((p :: turns).flatMap fun p => p.1 ++ p.2.toList) ++ mid
    have hmid : mid₂ = (turns.flatMap fun p => p.1 ++ p.2.toList) ++ mid := hrest
    rw [String.toList_ofList, List.flatMap_cons, hmid]
    simp only [List.append_assoc]
  have hgroups : gs₁ = gs₃ := hsame
  refine ⟨t, htext, ?_⟩
  rw [htext] at hread
  rw [hgs, List.append_cancel_right hread.symm, hgroups]

end Lists

end AoMarket.CommandWords
