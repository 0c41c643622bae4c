import AoMarket.PyText

/-!
The part of Python's `re` the patterns use: characters by predicate, sequence,
alternation, greedy repetition, numbered groups and `$`. Matching backtracks:
`results` lists what is left to read and the groups of every way to match, in
the order the engine tries them, and `matchStart` takes the first, as re.match does.
-/

namespace AoMarket.Regex

open PyText

inductive Re where
  | eps
  | char (p : Char → Bool)
  | seq (a b : Re)
  | alt (a b : Re)
  | star (a : Re)
  | group (n : ℕ) (a : Re)
  | dollar

abbrev Groups := List (ℕ × String)

/-- Greedy repetition; an empty turn ends it, so the input left bounds the turns. -/
def repeated (f : List Char × Groups → List (List Char × Groups)) :
    ℕ → List Char × Groups → List (List Char × Groups)
  | 0, st => [st]
  | turns + 1, st =>
    (((f st).filter fun st' => st'.1.length < st.1.length).flatMap (repeated f turns)) ++ [st]

theorem repeated_succ (f : List Char × Groups → List (List Char × Groups)) (turns : ℕ)
    (st : List Char × Groups) : repeated f (turns + 1) st =
      (((f st).filter fun st' => st'.1.length < st.1.length).flatMap (repeated f turns)) ++ [st] :=
  rfl

namespace Re

def results : Re → List Char × Groups → List (List Char × Groups)
  | eps, st => [st]
  | char _, ([], _) => []
  | char p, (c :: rest, gs) => if p c then [(rest, gs)] else []
  | seq a b, st => (results a st).flatMap (results b)
  | alt a b, st => results a st ++ results b st
  | star a, st => repeated (results a) st.1.length st
  | group n a, st =>
    (results a st).map fun st' =>
      (st'.1, (n, String.ofList (st.1.take (st.1.length - st'.1.length))) :: st'.2)
  | dollar, (rest, gs) => if rest = [] ∨ rest = ['\n'] then [(rest, gs)] else []

@[simp] theorem results_char_nil (p : Char → Bool) (gs : Groups) :
    results (char p) ([], gs) = [] := rfl

@[simp] theorem results_char_cons (p : Char → Bool) (c : Char) (rest : List Char) (gs : Groups) :
    results (char p) (c :: rest, gs) = if p c then [(rest, gs)] else [] := rfl

@[simp] theorem results_seq (a b : Re) (st : List Char × Groups) :
    results (seq a b) st = (results a st).flatMap (results b) := rfl

@[simp] theorem results_alt (a b : Re) (st : List Char × Groups) :
    results (alt a b) st = results a st ++ results b st := rfl

@[simp] theorem results_star (a : Re) (st : List Char × Groups) :
    results (star a) st = repeated (results a) st.1.length st := rfl

@[simp] theorem results_group (n : ℕ) (a : Re) (st : List Char × Groups) :
    results (group n a) st = (results a st).map fun st' =>
      (st'.1, (n, String.ofList (st.1.take (st.1.length - st'.1.length))) :: st'.2) := rfl

@[simp] theorem results_dollar (rest : List Char) (gs : Groups) :
    results dollar (rest, gs) = if rest = [] ∨ rest = ['\n'] then [(rest, gs)] else [] := rfl

def plus (a : Re) : Re := seq a (star a)

def opt (a : Re) : Re := alt a eps

def all : List Re → Re
  | [] => eps
  | [r] => r
  | r :: rs => seq r (all rs)

def matchStart (r : Re) (s : String) : Option Groups :=
  (results r (s.toList, [])).head?.map Prod.snd

/-- `finditer` for a pattern that matches no empty text; every turn reads a character. -/
def findAll (r : Re) : ℕ → List Char → List Groups
  | 0, _ => []
  | _, [] => []
  | turns + 1, c :: cs =>
    match (results r (c :: cs, [])).head? with
    | some (rest, gs) => gs :: findAll r turns rest
    | none => findAll r turns cs

end Re

/-- `match.group(n)`. -/
def groupOf (gs : Groups) (n : ℕ) : Option String := gs.lookup n

/-- The lower-case letter a character stands for under IGNORECASE, with the
characters outside ASCII that fold to one. -/
def foldLetter (c : Char) : Char :=
  let n := c.toNat
  if 65 ≤ n ∧ n ≤ 90 then Char.ofNat (n + 32)
  else if n = 0x130 ∨ n = 0x131 then 'i'
  else if n = 0x17f then 's'
  else if n = 0x212a then 'k'
  else c

/-- A literal text under IGNORECASE. -/
def word (s : String) : Re := Re.all (s.toList.map fun l => Re.char fun c => foldLetter c == l)

/-- `[A-Za-z]` under IGNORECASE. -/
def isLetter (c : Char) : Bool := 'a' ≤ foldLetter c && foldLetter c ≤ 'z'

def space : Re := .char isSpace

/-- `[0-9]`. -/
def digit : Re := .char fun c => (digitValue c).isSome

/-- `.`. -/
def dot : Re := .char fun c => c != '\n'

/-! What a match begins with -/

namespace Re

/-- Every text the pattern matches begins with a character satisfying `p`. -/
def Starts (p : Char → Bool) (r : Re) : Prop :=
  ∀ st, results r st ≠ [] → ∃ c rest, st.1 = c :: rest ∧ p c = true

theorem Starts.char (p : Char → Bool) : Starts p (.char p) := by
  rintro ⟨l, gs⟩ h
  cases l with
  | nil => exact absurd rfl h
  | cons c rest =>
    refine ⟨c, rest, rfl, ?_⟩
    by_contra hc
    exact h (if_neg hc)

theorem Starts.seq {p : Char → Bool} {a : Re} (ha : Starts p a) (b : Re) :
    Starts p (.seq a b) := by
  intro st h
  apply ha
  intro hnil
  apply h
  simp [hnil]

theorem Starts.alt {p : Char → Bool} {a b : Re} (ha : Starts p a) (hb : Starts p b) :
    Starts p (.alt a b) := by
  intro st h
  by_cases hnil : results a st = []
  · apply hb
    intro hnil'
    apply h
    simp [hnil, hnil']
  · exact ha st hnil

theorem Starts.all {p : Char → Bool} {r : Re} (hr : Starts p r) (rs : List Re) :
    Starts p (.all (r :: rs)) := by
  cases rs with
  | nil => exact hr
  | cons r' rs => exact hr.seq _

theorem Starts.matchStart {p : Char → Bool} {r : Re} (hr : Starts p r) {s : String}
    {gs : Groups} (h : r.matchStart s = some gs) : ∃ c rest, s.toList = c :: rest ∧ p c = true := by
  refine hr (s.toList, []) fun hnil => ?_
  simp [Re.matchStart, hnil] at h

end Re

theorem starts_word {s : String} {l : Char} (rest : List Char) (h : s.toList = l :: rest) :
    Re.Starts (fun c => foldLetter c == l) (word s) := by
  unfold word
  rw [h, List.map_cons]
  exact (Re.Starts.char _).all _

/-! The first way to match -/

namespace Re

/-- The engine's first way to match leads from one state to the other. -/
def First (r : Re) (st st' : List Char × Groups) : Prop := (results r st).head? = some st'

theorem First.char {p : Char → Bool} {c : Char} (h : p c = true) (rest : List Char) (gs : Groups) :
    First (.char p) (c :: rest, gs) (rest, gs) := by
  simp [First, h]

theorem First.seq {a b : Re} {st₁ st₂ st₃ : List Char × Groups} (ha : First a st₁ st₂)
    (hb : First b st₂ st₃) : First (.seq a b) st₁ st₃ := by
  obtain ⟨others, hothers⟩ := List.head?_eq_some_iff.mp ha
  obtain ⟨rest, hrest⟩ := List.head?_eq_some_iff.mp hb
  simp [First, hothers, hrest]

theorem First.group {a : Re} {l l' : List Char} {gs gs' : Groups} (n : ℕ)
    (ha : First a (l, gs) (l', gs')) : First (.group n a) (l, gs)
      (l', (n, String.ofList (l.take (l.length - l'.length))) :: gs') := by
  obtain ⟨others, hothers⟩ := List.head?_eq_some_iff.mp ha
  simp [First, hothers]

theorem First.group_read {a : Re} {read rest : List Char} {gs gs' : Groups} (n : ℕ)
    (ha : First a (read ++ rest, gs) (rest, gs')) :
    First (.group n a) (read ++ rest, gs) (rest, (n, String.ofList read) :: gs') := by
  have hgroup := ha.group n
  rwa [List.length_append, Nat.add_sub_cancel, List.take_left] at hgroup

theorem First.dollar (gs : Groups) : First .dollar ([], gs) ([], gs) := by
  simp [First]

/-- A repeated character is read as long as it can be. -/
theorem First.star (p : Char → Bool) (l : List Char) (gs : Groups) :
    First (.star (.char p)) (l, gs) (l.dropWhile p, gs) := by
  have hturns : ∀ turns (l : List Char), l.length ≤ turns →
      (repeated (results (.char p)) turns (l, gs)).head? = some (l.dropWhile p, gs) := by
    intro turns
    induction turns with
    | zero =>
      intro l hl
      have hnil : l = [] := List.length_eq_zero_iff.mp (by omega)
      rw [hnil]
      rfl
    | succ turns ih =>
      intro l hl
      cases l with
      | nil => simp [repeated_succ]
      | cons c rest =>
        rw [List.length_cons] at hl
        have hrest := ih rest (by omega)
        by_cases hc : p c = true
        · obtain ⟨others, hothers⟩ := List.head?_eq_some_iff.mp hrest
          simp [repeated_succ, hc, hothers]
        · simp [repeated_succ, hc]
  exact hturns l.length l (le_refl _)

/-- A run of the repeated character is read to where it ends. -/
theorem First.star_run {p : Char → Bool} {run rest : List Char} (hrun : ∀ c ∈ run, p c = true)
    (hstop : ∀ c ∈ rest.head?, p c = false) (gs : Groups) :
    First (.star (.char p)) (run ++ rest, gs) (rest, gs) := by
  have hdrop : (run ++ rest).dropWhile p = rest := by
    rw [List.dropWhile_append_of_pos hrun]
    cases rest with
    | nil => rfl
    | cons c rest => exact List.dropWhile_cons_of_neg (by simpa using hstop c rfl)
  have hstar := First.star p (run ++ rest) gs
  rwa [hdrop] at hstar

theorem First.plus_run {p : Char → Bool} {run rest : List Char} (hne : run ≠ [])
    (hrun : ∀ c ∈ run, p c = true) (hstop : ∀ c ∈ rest.head?, p c = false) (gs : Groups) :
    First (Re.plus (.char p)) (run ++ rest, gs) (rest, gs) := by
  cases run with
  | nil => exact absurd rfl hne
  | cons c run =>
    refine (First.char (hrun c List.mem_cons_self) (run ++ rest) gs).seq ?_
    exact First.star_run (fun d hd => hrun d (List.mem_cons_of_mem c hd)) hstop gs

theorem First.eps (st : List Char × Groups) : First .eps st st := rfl

theorem First.alt_left {a : Re} {st st' : List Char × Groups} (ha : First a st st') (b : Re) :
    First (.alt a b) st st' := by
  obtain ⟨others, hothers⟩ := List.head?_eq_some_iff.mp ha
  simp [First, hothers]

theorem First.alt_right {a b : Re} {st st' : List Char × Groups} (ha : results a st = [])
    (hb : First b st st') : First (.alt a b) st st' := by
  rw [First, results_alt, ha, List.nil_append]
  exact hb

theorem First.plus {p : Char → Bool} {c : Char} (h : p c = true) (rest : List Char)
    (gs : Groups) : First (Re.plus (.char p)) (c :: rest, gs) (rest.dropWhile p, gs) :=
  (First.char h rest gs).seq (First.star p rest gs)

theorem First.matchStart {r : Re} {s : String} {st : List Char × Groups}
    (h : First r (s.toList, []) st) : r.matchStart s = some st.2 := by
  rw [Re.matchStart, h]
  rfl

/-! What every way to match leaves -/

/-- A match reads a beginning of the text. -/
theorem suffix_of_mem {r : Re} {st st' : List Char × Groups} (h : st' ∈ results r st) :
    st'.1 <:+ st.1 := by
  induction r generalizing st st' with
  | eps =>
    obtain rfl := List.mem_singleton.mp h
    exact List.suffix_refl _
  | char p =>
    obtain ⟨l, gs⟩ := st
    cases l with
    | nil => cases h
    | cons c rest =>
      rw [results_char_cons] at h
      split at h
      · obtain rfl := List.mem_singleton.mp h
        exact List.suffix_cons c rest
      · cases h
  | seq a b iha ihb =>
    obtain ⟨mid, hmid, h⟩ := List.mem_flatMap.mp h
    exact (ihb h).trans (iha hmid)
  | alt a b iha ihb =>
    rcases List.mem_append.mp h with h | h
    · exact iha h
    · exact ihb h
  | star a ih =>
    have hturns : ∀ turns (st st' : List Char × Groups),
        st' ∈ repeated (results a) turns st → st'.1 <:+ st.1 := by
      intro turns
      induction turns with
      | zero =>
        intro st st' h
        obtain rfl := List.mem_singleton.mp h
        exact List.suffix_refl _
      | succ turns ihturns =>
        intro st st' h
        rcases List.mem_append.mp h with h | h
        · obtain ⟨mid, hmid, h⟩ := List.mem_flatMap.mp h
          exact (ihturns mid st' h).trans (ih (List.mem_filter.mp hmid).1)
        · obtain rfl := List.mem_singleton.mp h
          exact List.suffix_refl _
    exact hturns _ st st' h
  | group n a ih =>
    obtain ⟨mid, hmid, rfl⟩ := List.mem_map.mp h
    have hsuffix := @ih st mid hmid
    exact hsuffix
  | dollar =>
    obtain ⟨l, gs⟩ := st
    rw [results_dollar] at h
    split at h
    · obtain rfl := List.mem_singleton.mp h
      exact List.suffix_refl _
    · cases h

/-- A repeated character that cannot be read is left alone. -/
theorem results_plus_stop {p : Char → Bool} {c d : Char} (hc : p c = true) (hd : p d = false)
    (rest : List Char) (gs : Groups) :
    results (Re.plus (.char p)) (c :: d :: rest, gs) = [(d :: rest, gs)] := by
  simp [Re.plus, hc, repeated_succ, hd]

end Re

/-- A literal text is read in one way. -/
theorem results_word {s : String} (h : ∀ c ∈ s.toList, (foldLetter c == c) = true)
    (rest : List Char) (gs : Groups) :
    Re.results (word s) (s.toList ++ rest, gs) = [(rest, gs)] := by
  unfold word
  generalize s.toList = l at h
  induction l with
  | nil => rfl
  | cons c cs ih =>
    have hc := h c List.mem_cons_self
    have hrest := ih fun d hd => h d (List.mem_cons_of_mem c hd)
    cases cs with
    | nil => simp [Re.all, hc]
    | cons d ds =>
      show Re.results (.seq (.char fun e => foldLetter e == c)
        (Re.all ((d :: ds).map fun l => Re.char fun e => foldLetter e == l)))
        (c :: (d :: ds ++ rest), gs) = _
      simp only [Re.results_seq, Re.results_char_cons, hc, if_true, List.flatMap_cons, List.flatMap_nil, List.append_nil]
      exact hrest

theorem first_word {s : String} (h : ∀ c ∈ s.toList, (foldLetter c == c) = true)
    (rest : List Char) (gs : Groups) : Re.First (word s) (s.toList ++ rest, gs) (rest, gs) := by
  rw [Re.First, results_word h]
  rfl

end AoMarket.Regex
