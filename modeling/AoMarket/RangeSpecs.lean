import AoMarket.CreditText
import AoMarket.Matches

/-!
What a range spec stands for. `Denotes` says it in terms of the text: one dash, on each
side of it nothing or what the side parser takes, and the bounds in order. parse_range
reads exactly these specs.
-/

namespace AoMarket.RangeSpecs

open PyText Regex Environment Parsing CreditText

/-- The text before the first dash, and the text after it. -/
def beforeDash (l : List Char) : List Char := l.takeWhile fun c => c != '-'

def afterDash (l : List Char) : List Char := (l.dropWhile fun c => c != '-').drop 1

def sides (spec : String) : String × String :=
  (String.ofList (stripChars (beforeDash (strip spec).toList)),
    String.ofList (stripChars (afterDash (strip spec).toList)))

/-- A side is empty and gives no bound, or the parser takes it and gives the bound. -/
def Side (parser : String → Except PyErr (Option ℤ)) (raw : String) (bound : Option ℤ) : Prop :=
  raw = "" ∧ bound = none ∨ raw ≠ "" ∧ ∃ n, parser raw = .ok (some n) ∧ bound = some n

structure Denotes (parser : String → Except PyErr (Option ℤ)) (spec : String)
    (lo hi : Option ℤ) : Prop where
  one_dash : (strip spec).toList.count '-' = 1
  left : Side parser (sides spec).1 lo
  right : Side parser (sides spec).2 hi
  bounded : ¬ ((sides spec).1 = "" ∧ (sides spec).2 = "")
  ordered : ∀ a ∈ lo, ∀ b ∈ hi, a ≤ b

section Dashes
variable {l left right : List Char}

theorem not_mem_beforeDash (l : List Char) : '-' ∉ beforeDash l := by
  intro hmem
  have hne := List.mem_takeWhile_imp hmem
  simp at hne

theorem dash_split (h : l.count '-' = 1) :
    l = beforeDash l ++ '-' :: afterDash l ∧ '-' ∉ afterDash l := by
  have hsplit : beforeDash l ++ l.dropWhile (fun c => c != '-') = l :=
    List.takeWhile_append_dropWhile
  have hafter : afterDash l = (l.dropWhile fun c => c != '-').drop 1 := rfl
  cases hrest : l.dropWhile fun c => c != '-' with
  | nil =>
    rw [hrest, List.append_nil] at hsplit
    have hzero := List.count_eq_zero_of_not_mem (not_mem_beforeDash l)
    rw [hsplit] at hzero
    omega
  | cons c rest =>
    have hc : c = '-' := by
      have hhead := List.head?_dropWhile_not (fun c => c != '-') l
      rw [hrest] at hhead
      simpa using hhead
    rw [hrest, hc] at hsplit
    rw [hafter, hrest, List.drop_succ_cons, List.drop_zero]
    refine ⟨hsplit.symm, fun hmem => ?_⟩
    have hcount := List.count_pos_iff.mpr hmem
    rw [← hsplit, List.count_append, List.count_cons_self] at h
    omega

theorem ne_dash (h : '-' ∉ left) : ∀ c ∈ left, (c != '-') = true := by
  intro c hc
  have hne : c ≠ '-' := fun heq => h (heq ▸ hc)
  simpa using hne

theorem beforeDash_append (h : '-' ∉ left) : beforeDash (left ++ '-' :: right) = left := by
  unfold beforeDash
  rw [List.takeWhile_append_of_pos (ne_dash h)]
  simp

theorem afterDash_append (h : '-' ∉ left) : afterDash (left ++ '-' :: right) = right := by
  unfold afterDash
  rw [List.dropWhile_append_of_pos (ne_dash h)]
  simp

/-- The pattern matches the texts with one dash, and captures what is around it. -/
theorem rangeRe_matchStart (s : String) :
    rangeRe.matchStart s =
      if s.toList.count '-' = 1 then some [(2, String.ofList (afterDash s.toList)),
        (1, String.ofList (beforeDash s.toList))]
      else none := by
  by_cases hcount : s.toList.count '-' = 1
  · obtain ⟨hsplit, hafter⟩ := dash_split hcount
    have hbefore := not_mem_beforeDash s.toList
    rw [if_pos hcount]
    generalize beforeDash s.toList = left at hsplit hbefore ⊢
    generalize afterDash s.toList = right at hsplit hafter ⊢
    have hleft : Re.First (.group 1 notDash.star) (left ++ '-' :: right, [])
        ('-' :: right, [(1, String.ofList left)]) :=
      (Re.First.star_run (ne_dash hbefore) (by simp) []).group_read 1
    have hright : ∀ gs, Re.First (.group 2 notDash.star) (right ++ [], gs)
        ([], (2, String.ofList right) :: gs) :=
      fun gs => (Re.First.star_run (ne_dash hafter) (by simp) gs).group_read 2
    have hdash := @Re.First.char (fun c => c == '-') '-' rfl right [(1, String.ofList left)]
    simp only [List.append_nil] at hright
    have hall := hleft.seq (hdash.seq ((hright _).seq (Re.First.dollar _)))
    rw [← hsplit] at hall
    exact hall.matchStart
  · rw [if_neg hcount, Re.matchStart_eq_none]
    intro st hst
    obtain ⟨rest, gs⟩ := st
    simp only [rangeRe, notDash, Re.all, Re.mem_seq, Prod.exists, Re.mem_group, Re.mem_star_char,
      Re.mem_char, Re.mem_dollar] at hst
    obtain ⟨mid, gs₁, ⟨left, _, -, ⟨_, hleft, hl, -⟩, -⟩, after, gs₂, ⟨c, hc, hmid, -⟩,
      _, gs₃, ⟨right, _, -, ⟨_, hright, hafter, -⟩, -⟩, hend, rfl, -⟩ := hst
    have hc' : c = '-' := by simpa using hc
    have hzero : ∀ run : List Char, (∀ d ∈ run, (d != '-') = true) → run.count '-' = 0 := by
      intro run hrun
      apply List.count_eq_zero_of_not_mem
      intro hmem
      simpa using hrun '-' hmem
    have hrest : rest.count '-' = 0 := by rcases hend with rfl | rfl <;> rfl
    apply hcount
    rw [hl, hmid, hafter, hc', List.count_append, List.count_cons_self, List.count_append,
      hzero _ hleft, hzero _ hright, hrest]

end Dashes

section Parsing
variable {parser : String → Except PyErr (Option ℤ)} {spec : String}

theorem parseSide_eq_some {raw : String} {bound : Option ℤ} :
    parseSide parser raw = .ok (some bound) ↔ Side parser raw bound := by
  unfold parseSide Side
  by_cases hempty : raw = ""
  · simp only [hempty, true_and, ne_eq, not_true_eq_false, false_and, or_false]
    constructor
    · intro h
      exact (Option.some.inj (Except.ok.inj h)).symm
    · intro h
      rw [h]
      rfl
  · simp only [hempty, false_and, ne_eq, not_false_eq_true, true_and, false_or]
    cases parser raw with
    | error e => simp [bind, Except.bind]
    | ok read =>
      cases read with
      | none => simp [bind, Except.bind, pure, Except.pure]
      | some n => simp [bind, Except.bind, pure, Except.pure, eq_comm]

/-- Only an empty side gives no bound. -/
theorem side_none {raw : String} : Side parser raw none ↔ raw = "" := by
  simp [Side]

theorem side_empty {bound : Option ℤ} : Side parser "" bound ↔ bound = none := by
  simp [Side]

def joinSides (parser : String → Except PyErr (Option ℤ)) (left right : String) :
    Except PyErr (Option (Option ℤ × Option ℤ)) := do
  let some minValue ← parseSide parser left | return none
  let some maxValue ← parseSide parser right | return none
  match minValue, maxValue with
  | none, none => return none
  | some lo, some hi => if hi < lo then return none else return some (some lo, some hi)
  | lo, hi => return some (lo, hi)

theorem parseRange_of_dash (h : (strip spec).toList.count '-' = 1) :
    parseRange spec parser = joinSides parser (sides spec).1 (sides spec).2 := by
  have hone : strip (String.ofList (beforeDash (strip spec).toList)) = (sides spec).1 := by
    rw [strip, String.toList_ofList, sides]
  have htwo : strip (String.ofList (afterDash (strip spec).toList)) = (sides spec).2 := by
    rw [strip, String.toList_ofList, sides]
  unfold parseRange
  rw [rangeRe_matchStart, if_pos h, ← hone, ← htwo]
  rfl

theorem parseRange_without_dash (h : (strip spec).toList.count '-' ≠ 1) :
    parseRange spec parser = .ok none := by
  unfold parseRange
  rw [rangeRe_matchStart, if_neg h]

/-- Two sides make a range when both are read, one of them gives a bound, and the bounds are
in order. -/
theorem joinSides_eq_some {left right : String} {lo hi : Option ℤ} :
    joinSides parser left right = .ok (some (lo, hi)) ↔
      (Side parser left lo ∧ Side parser right hi) ∧ ¬ (lo = none ∧ hi = none) ∧
        ∀ a ∈ lo, ∀ b ∈ hi, a ≤ b := by
  unfold joinSides
  constructor
  · intro h
    obtain ⟨minValue, hmin, h⟩ := except_bind_eq_ok.mp h
    cases minValue with
    | none => cases h
    | some a =>
      obtain ⟨maxValue, hmax, h⟩ := except_bind_eq_ok.mp h
      cases maxValue with
      | none => cases h
      | some b =>
        rw [parseSide_eq_some] at hmin hmax
        cases a with
        | none =>
          cases b with
          | none => cases h
          | some n =>
            cases h
            exact ⟨⟨hmin, hmax⟩, by simp, by simp⟩
        | some m =>
          cases b with
          | none =>
            cases h
            exact ⟨⟨hmin, hmax⟩, by simp, by simp⟩
          | some n =>
            dsimp only at h
            by_cases hlt : n < m
            · rw [if_pos hlt] at h
              cases h
            · rw [if_neg hlt] at h
              cases h
              exact ⟨⟨hmin, hmax⟩, by simp, by simpa using hlt⟩
  · intro h
    obtain ⟨⟨hmin, hmax⟩, hsome, hordered⟩ := h
    rw [parseSide_eq_some.mpr hmin, ok_bind]
    dsimp only
    rw [parseSide_eq_some.mpr hmax, ok_bind]
    cases lo with
    | none =>
      cases hi with
      | none => exact absurd ⟨rfl, rfl⟩ hsome
      | some n => rfl
    | some m =>
      cases hi with
      | none => rfl
      | some n =>
        have hle : ¬ n < m := by
          have hmn := hordered m rfl n rfl
          omega
        dsimp only
        rw [if_neg hle]
        rfl

/-- A range is read from a spec exactly when the spec stands for it. -/
theorem parseRange_eq_some {lo hi : Option ℤ} :
    parseRange spec parser = .ok (some (lo, hi)) ↔ Denotes parser spec lo hi := by
  by_cases hcount : (strip spec).toList.count '-' = 1
  · rw [parseRange_of_dash hcount, joinSides_eq_some]
    constructor
    · intro h
      obtain ⟨⟨hleft, hright⟩, hsome, hordered⟩ := h
      refine ⟨hcount, hleft, hright, fun hempty => hsome ⟨?_, ?_⟩, hordered⟩
      · rwa [hempty.1, side_empty] at hleft
      · rwa [hempty.2, side_empty] at hright
    · intro h
      refine ⟨⟨h.left, h.right⟩, fun hnone => h.bounded ⟨?_, ?_⟩, h.ordered⟩
      · exact side_none.mp (hnone.1 ▸ h.left)
      · exact side_none.mp (hnone.2 ▸ h.right)
  · rw [parseRange_without_dash hcount]
    constructor
    · intro h
      cases h
    · intro h
      exact absurd h.one_dash hcount

/-- What a range raises one of its sides raised. -/
theorem parseRange_error {e : PyErr} (h : parseRange spec parser = .error e) :
    ∃ side, parser side = .error e := by
  have hside : ∀ raw, parseSide parser raw = .error e → parser raw = .error e := by
    intro raw hraw
    unfold parseSide at hraw
    split at hraw
    · cases hraw
    · rcases bind_eq_error hraw with hraw | ⟨n, hn⟩
      · exact hraw
      · cases n with
        | none => cases hn
        | some n => cases hn
  by_cases hcount : (strip spec).toList.count '-' = 1
  · rw [parseRange_of_dash hcount] at h
    rcases bind_eq_error h with h | ⟨lo, h⟩
    · exact ⟨_, hside _ h⟩
    · cases lo with
      | none => cases h
      | some lo =>
        rcases bind_eq_error h with h | ⟨hi, h⟩
        · exact ⟨_, hside _ h⟩
        · cases hi with
          | none => cases h
          | some hi =>
            dsimp only at h
            split at h
            · cases h
            · split at h
              · cases h
              · cases h
            · cases h
  · rw [parseRange_without_dash hcount] at h
    cases h

/-- With a side parser that raises nothing, a spec that stands for no range is rejected. -/
theorem parseRange_eq_none {P : String → Option ℤ} :
    parseRange spec (fun s => .ok (P s)) = .ok none ↔
      ¬ ∃ lo hi, Denotes (fun s => .ok (P s)) spec lo hi := by
  cases hread : parseRange spec fun s => .ok (P s) with
  | error e =>
    obtain ⟨side, hside⟩ := parseRange_error hread
    cases hside
  | ok range =>
    cases range with
    | none =>
      refine iff_of_true rfl fun h => ?_
      obtain ⟨lo, hi, hdenotes⟩ := h
      rw [parseRange_eq_some.mpr hdenotes] at hread
      cases hread
    | some bounds =>
      refine iff_of_false (by simp) (not_not_intro ?_)
      exact ⟨bounds.1, bounds.2, parseRange_eq_some.mp hread⟩

end Parsing

/-! Decimal numbers around a dash -/

section Decimals
variable {py : Runtime}

theorem not_space_toString (n : ℕ) : ∀ c ∈ (toString n).toList, isSpace c = false :=
  fun _ hc => isSpace_of_isDigit (isDigit_of_mem_toString_nat hc)

theorem toString_ne_nil (n : ℕ) : (toString n).toList ≠ [] := by
  rw [toList_toString_nat]
  exact Nat.toDigits_ne_nil

theorem toString_ne_empty (n : ℕ) : toString n ≠ "" := by
  intro heq
  have hnil : (toString n).toList = [] := by
    rw [heq]
    rfl
  exact toString_ne_nil n hnil

theorem dash_not_mem (n : ℕ) : '-' ∉ (toString n).toList :=
  fun hmem => absurd (isDigit_of_mem_toString_nat hmem) (by decide)

/-- A number of few enough digits is read as itself. -/
theorem parseQl_digits {n : ℕ} (h : (toString n).length ≤ maxStrDigits) :
    parseQl py (toString n) = .ok (some (n : ℤ)) := by
  have hstrip : strip (toString n) = toString n := strip_of_not_space (not_space_toString n)
  have hdigits : Re.First digit.plus ((toString n).toList ++ [], []) ([], []) := by
    refine Re.First.plus_run (toString_ne_nil n) (fun c hc => ?_) (by simp) []
    rw [digitValue_of_isDigit (isDigit_of_mem_toString_nat hc)]
    rfl
  rw [List.append_nil] at hdigits
  have hmatch : qlRe.matchStart (toString n) = some [] :=
    (hdigits.seq (Re.First.dollar [])).matchStart
  have hint : parseInt py.decimal (toString n) = some (n : ℤ) :=
    @parseInt_toString py (n : ℤ) h
  unfold parseQl
  simp only [hstrip, hmatch, hint, Option.isNone_some, Bool.false_eq_true, or_false,
    if_neg (toString_ne_empty n)]

theorem strip_dashed (lo hi : ℕ) : (strip (toString lo ++ "-" ++ toString hi)).toList =
    (toString lo).toList ++ '-' :: (toString hi).toList := by
  have htext : (toString lo ++ "-" ++ toString hi).toList =
      (toString lo).toList ++ '-' :: (toString hi).toList := by
    have hone : "-".toList = ['-'] := by decide
    rw [String.toList_append, String.toList_append, hone, List.append_assoc]
    rfl
  rw [strip, String.toList_ofList, htext]
  apply stripChars_of_not_space
  intro c hc
  rcases List.mem_append.mp hc with hc | hc
  · exact not_space_toString lo c hc
  · rcases List.mem_cons.mp hc with rfl | hc
    · decide
    · exact not_space_toString hi c hc

theorem sides_dashed (lo hi : ℕ) :
    sides (toString lo ++ "-" ++ toString hi) = (toString lo, toString hi) := by
  unfold sides
  rw [strip_dashed, beforeDash_append (dash_not_mem lo), afterDash_append (dash_not_mem lo),
    stripChars_of_not_space (not_space_toString lo),
    stripChars_of_not_space (not_space_toString hi), String.ofList_toList, String.ofList_toList]

/-- Two numbers with a dash between them are read as the range from one to the other. -/
theorem parseRange_decimals {lo hi : ℕ} (h : lo ≤ hi) (hlo : (toString lo).length ≤ maxStrDigits)
    (hhi : (toString hi).length ≤ maxStrDigits) :
    parseRange (toString lo ++ "-" ++ toString hi) (parseQl py) =
      .ok (some (some (lo : ℤ), some (hi : ℤ))) := by
  have hside : ∀ n : ℕ, (toString n).length ≤ maxStrDigits →
      Side (parseQl py) (toString n) (some (n : ℤ)) := by
    intro n hn
    exact Or.inr ⟨toString_ne_empty n, n, parseQl_digits hn, rfl⟩
  rw [parseRange_eq_some]
  refine ⟨?_, ?_, ?_, ?_, ?_⟩
  · rw [strip_dashed, List.count_append, List.count_cons_self,
      List.count_eq_zero_of_not_mem (dash_not_mem lo),
      List.count_eq_zero_of_not_mem (dash_not_mem hi)]
  · rw [sides_dashed]
    exact hside lo hlo
  · rw [sides_dashed]
    exact hside hi hhi
  · rw [sides_dashed]
    exact fun hempty => toString_ne_empty lo hempty.1
  · simpa using h

end Decimals

end AoMarket.RangeSpecs
