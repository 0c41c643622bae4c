import AoMarket.Parsing
import AoMarket.Rounding
import Mathlib.Data.List.TakeWhile

/-!
Credit shorthand in exact arithmetic. Every text of a number of credits is read back, to a
number within half of the last decimal shown. Formatted again it gives the same text, but
for the numbers that round up to a thousand of their unit: the unit is chosen before rounding.
-/

namespace AoMarket.CreditText

open PyNumber PyText Regex Environment Parsing Rounding

variable {py : Runtime}

/-! Rounding a quotient of integers -/

def roundDiv (v : ℤ) (m : ℕ) : ℤ :=
  if 2 * (v % m) < m then v / m
  else if m < 2 * (v % m) then v / m + 1
  else if v / m % 2 = 0 then v / m else v / m + 1

/-- Rounding a fraction is a matter of quotient and remainder. -/
theorem roundHalfEven_div (v : ℤ) {m : ℕ} (hm : 0 < m) :
    roundHalfEven ((v : ℚ) / m) = roundDiv v m := by
  have hm' : (0 : ℚ) < m := by exact_mod_cast hm
  have hrest : (v : ℚ) / m - ((v / m : ℤ) : ℚ) = ((v % m : ℤ) : ℚ) / m := by
    have hsplit : (v : ℚ) = m * ((v / m : ℤ) : ℚ) + ((v % m : ℤ) : ℚ) := by
      exact_mod_cast (Int.mul_ediv_add_emod v m).symm
    rw [eq_div_iff hm'.ne', sub_mul, div_mul_cancel₀ _ hm'.ne']
    linarith
  have hlow : ((v % m : ℤ) : ℚ) / m < 1 / 2 ↔ 2 * (v % m) < m := by
    rw [div_lt_div_iff₀ hm' (by norm_num)]
    constructor
    · intro h
      have hcast : ((2 * (v % m) : ℤ) : ℚ) < ((m : ℤ) : ℚ) := by
        push_cast
        linarith
      exact_mod_cast hcast
    · intro h
      have hcast : ((2 * (v % m) : ℤ) : ℚ) < ((m : ℤ) : ℚ) := by exact_mod_cast h
      push_cast at hcast
      linarith
  have hhigh : 1 / 2 < ((v % m : ℤ) : ℚ) / m ↔ (m : ℤ) < 2 * (v % m) := by
    rw [div_lt_div_iff₀ (by norm_num) hm']
    constructor
    · intro h
      have hcast : ((m : ℤ) : ℚ) < ((2 * (v % m) : ℤ) : ℚ) := by
        push_cast
        linarith
      exact_mod_cast hcast
    · intro h
      have hcast : ((m : ℤ) : ℚ) < ((2 * (v % m) : ℤ) : ℚ) := by exact_mod_cast h
      push_cast at hcast
      linarith
  unfold roundHalfEven roundDiv
  simp only [Rat.floor_intCast_div_natCast, hrest, hlow, hhigh]

theorem roundHalfEven_int (n : ℤ) : roundHalfEven n = n := by
  unfold roundHalfEven
  simp

/-! Texts -/

def tenthsText (k : ℤ) : String := s!"{k / 10}.{k % 10}"

def shown (v : ℤ) : String :=
  if 1000000000 ≤ v then tenthsText (roundDiv v 100000000) ++ "b"
  else if 1000000 ≤ v then tenthsText (roundDiv v 100000) ++ "m"
  else if 1000 ≤ v then tenthsText (roundDiv v 100) ++ "k"
  else toString v

theorem tenths_div {v : ℤ} {m : ℕ} {u : ℚ} (hu : u = 10 * m) (hm : 0 < m)
    (hk : roundDiv v m < 10 ^ 15) : tenths some py ((v : ℚ) / u) = tenthsText (roundDiv v m) := by
  have hm' : (0 : ℚ) < m := by exact_mod_cast hm
  have hten : 10 * ((v : ℚ) / u) = (v : ℚ) / m := by
    rw [hu]
    field_simp
  unfold tenths
  simp only [hten, roundHalfEven_div v hm, if_pos hk]
  rfl

theorem roundDiv_le (v : ℤ) (m : ℕ) : roundDiv v m ≤ v / m + 1 := by
  unfold roundDiv
  split
  · omega
  · split
    · omega
    · split
      · omega
      · omega

/-- In exact arithmetic format_credits prints the text `shown`. -/
theorem formatCredits_shown {v : ℤ} (h : 0 ≤ v) (hv : v < 10 ^ 22) :
    formatCredits some py (.int v) = .ok (shown v) := by
  have hneg : ¬ (v : ℚ) < 0 := by
    have hcast : (0 : ℚ) ≤ v := by exact_mod_cast h
    linarith
  have habs : |(v : ℚ)| = v := abs_of_nonneg (by exact_mod_cast h)
  have hbound : ∀ n : ℤ, (n : ℚ) ≤ |(v : ℚ)| ↔ n ≤ v := by
    intro n
    rw [habs]
    exact Int.cast_le
  have hb : (1000000000 : ℚ) ≤ |(v : ℚ)| ↔ 1000000000 ≤ v := by exact_mod_cast hbound 1000000000
  have hm : (1000000 : ℚ) ≤ |(v : ℚ)| ↔ 1000000 ≤ v := by exact_mod_cast hbound 1000000
  have hk : (1000 : ℚ) ≤ |(v : ℚ)| ↔ 1000 ≤ v := by exact_mod_cast hbound 1000
  unfold formatCredits shown
  simp only [PyNum.value, hneg, if_false, hb, hm, hk, finite, String.empty_append]
  rw [habs]
  split
  · have hle := roundDiv_le v 100000000
    rw [ok_bind, tenths_div (m := 100000000) (by norm_num) (by omega) (by omega)]
    rfl
  · split
    · have hle := roundDiv_le v 100000
      rw [ok_bind, tenths_div (m := 100000) (by norm_num) (by omega) (by omega)]
      rfl
    · split
      · have hle := roundDiv_le v 100
        rw [ok_bind, tenths_div (m := 100) (by norm_num) (by omega) (by omega)]
        rfl
      · have hgrouped : grouped (v : ℚ) = toString v := by
          unfold grouped
          simp only [roundHalfEven_int]
          rw [if_neg (by omega)]
        rw [hgrouped]
        rfl

/-! Reading a text -/

def digitsOf (n : ℤ) : List Char := (toString n).toList

theorem digitsOf_eq {n : ℤ} (h : 0 ≤ n) : digitsOf n = Nat.toDigits 10 n.toNat := by
  rw [digitsOf, toList_toString_int, if_pos h, toList_toString_nat]

theorem digitsOf_isDigit {n : ℤ} (h : 0 ≤ n) : ∀ c ∈ digitsOf n, c.isDigit := by
  rw [digitsOf_eq h]
  exact fun c hc => Nat.isDigit_of_mem_toDigits (by omega) (by omega) hc

theorem digitsOf_ne_nil {n : ℤ} (h : 0 ≤ n) : digitsOf n ≠ [] := by
  rw [digitsOf_eq h]
  simp

theorem foldl_digitValue {l : List Char} (h : ∀ c ∈ l, c.isDigit) (acc : ℕ) :
    (l.filterMap digitValue).foldl (fun n d => 10 * n + d) acc = Nat.ofDigitChars 10 l acc := by
  induction l generalizing acc with
  | nil => rfl
  | cons c rest ih =>
    have hc := digitValue_of_isDigit (h c List.mem_cons_self)
    rw [List.filterMap_cons_some hc, List.foldl_cons, Nat.ofDigitChars_cons,
      ih fun d hd => h d (List.mem_cons_of_mem c hd)]

theorem foldl_digitsOf {n : ℤ} (h : 0 ≤ n) :
    ((digitsOf n).filterMap digitValue).foldl (fun n d => 10 * n + d) 0 = n.toNat := by
  rw [foldl_digitValue (digitsOf_isDigit h), digitsOf_eq h, Nat.ofDigitChars_ten_toDigits]

theorem isDigit_ne_dot {c : Char} (h : c.isDigit) : (c != '.') = true := by
  simp only [bne_iff_ne, ne_eq]
  rintro rfl
  exact absurd h (by decide)

theorem decimalValue_digits {n : ℤ} (h : 0 ≤ n) : decimalValue (toString n) = n := by
  have hdigits : ∀ c ∈ digitsOf n, (c != '.') = true :=
    fun c hc => isDigit_ne_dot (digitsOf_isDigit h c hc)
  have hint : (toString n).toList.takeWhile (fun c => c != '.') = digitsOf n :=
    List.takeWhile_eq_self_iff.mpr hdigits
  have hfraction : (toString n).toList.dropWhile (fun c => c != '.') = [] :=
    List.dropWhile_eq_nil_iff.mpr hdigits
  unfold decimalValue
  simp only [hint, hfraction, List.drop_nil, List.append_nil, foldl_digitsOf h, List.length_nil]
  rw [pow_zero, Nat.cast_one, div_one]
  exact_mod_cast Int.toNat_of_nonneg h

theorem toList_tenthsText (k : ℤ) :
    (tenthsText k).toList = digitsOf (k / 10) ++ '.' :: digitsOf (k % 10) := by
  simp only [tenthsText, String.toList_append, List.append_assoc]
  rfl

/-- A number and one decimal. -/
theorem decimalValue_tenths {k : ℤ} (h : 0 ≤ k) : decimalValue (tenthsText k) = (k : ℚ) / 10 := by
  have hhead : 0 ≤ k / 10 := by omega
  have hlast : 0 ≤ k % 10 := by omega
  have htext := toList_tenthsText k
  have hdigits : ∀ c ∈ digitsOf (k / 10), (c != '.') = true :=
    fun c hc => isDigit_ne_dot (digitsOf_isDigit hhead c hc)
  have hint : (tenthsText k).toList.takeWhile (fun c => c != '.') = digitsOf (k / 10) := by
    rw [htext, List.takeWhile_append_of_pos hdigits]
    simp
  have hfraction : (tenthsText k).toList.dropWhile (fun c => c != '.') =
      '.' :: digitsOf (k % 10) := by
    rw [htext, List.dropWhile_append_of_pos hdigits]
    simp
  have hone : digitsOf (k % 10) = [Nat.digitChar (k % 10).toNat] := by
    rw [digitsOf_eq hlast]
    exact Nat.toDigits_of_lt_base (by omega)
  have hvalue : ((digitsOf (k / 10) ++ digitsOf (k % 10)).filterMap digitValue).foldl
      (fun n d => 10 * n + d) 0 = k.toNat := by
    rw [List.filterMap_append, List.foldl_append, foldl_digitsOf hhead,
      foldl_digitValue (digitsOf_isDigit hlast), hone,
      Nat.ofDigitChars_cons_digitChar_of_lt_ten (by omega), Nat.ofDigitChars_nil]
    omega
  unfold decimalValue
  simp only [hint, hfraction, List.drop_one, List.tail_cons, hvalue]
  rw [hone]
  norm_num
  exact_mod_cast Int.toNat_of_nonneg h

/-! Matching a text -/

theorem first_digits {n : ℤ} (h : 0 ≤ n) {rest : List Char}
    (hstop : ∀ c ∈ rest.head?, (digitValue c).isSome = false) (gs : Groups) :
    Re.First digit.plus (digitsOf n ++ rest, gs) (rest, gs) := by
  refine Re.First.plus_run (digitsOf_ne_nil h) (fun c hc => ?_) hstop gs
  rw [digitValue_of_isDigit (digitsOf_isDigit h c hc)]
  rfl

/-- A letter that stands for a thousand, a million or a billion. -/
structure UnitLetter (letter : Char) : Prop where
  unit : decide (foldLetter letter ∈ ['k', 'm', 'b']) = true
  space : isSpace letter = false
  digit : (digitValue letter).isSome = false

/-- The credit pattern reads a number with one decimal and its unit into two groups. -/
theorem creditRe_tenths {k : ℤ} (h : 0 ≤ k) {letter : Char} (hletter : UnitLetter letter) :
    creditRe.matchStart (tenthsText k ++ String.ofList [letter]) =
      some [(2, String.ofList [letter]), (1, tenthsText k)] := by
  have htext : (tenthsText k ++ String.ofList [letter]).toList =
      (tenthsText k).toList ++ [letter] := by
    rw [String.toList_append, String.toList_ofList]
  have hdigits : (tenthsText k).toList ++ [letter] =
      digitsOf (k / 10) ++ '.' :: (digitsOf (k % 10) ++ [letter]) := by
    rw [toList_tenthsText, List.append_assoc]
    rfl
  have hnumber : Re.First (.seq digit.plus (.opt (.seq (.char fun c => c == '.') digit.plus)))
      ((tenthsText k).toList ++ [letter], []) ([letter], []) := by
    rw [hdigits]
    refine (first_digits (by omega) ?_ []).seq (Re.First.alt_left ?_ .eps)
    · intro c hc
      cases hc
      rfl
    · refine (Re.First.char (c := '.') rfl _ []).seq (first_digits (by omega) ?_ [])
      intro c hc
      cases hc
      exact hletter.digit
  have hgroup := hnumber.group_read 1
  rw [String.ofList_toList, ← htext] at hgroup
  have hspace : Re.First (.star space) ([letter], [(1, tenthsText k)])
      ([letter], [(1, tenthsText k)]) := by
    refine @Re.First.star_run isSpace [] [letter] (by simp) ?_ _
    intro c hc
    cases hc
    exact hletter.space
  have hchar := @Re.First.char (fun c => decide (foldLetter c ∈ ['k', 'm', 'b'])) letter
    hletter.unit [] [(1, tenthsText k)]
  have hunit := (hchar.alt_left .eps).group 2
  exact (hgroup.seq (hspace.seq (hunit.seq (Re.First.dollar _)))).matchStart

theorem creditRe_digits {n : ℤ} (h : 0 ≤ n) :
    creditRe.matchStart (toString n) = some [(2, ""), (1, toString n)] := by
  have hnumber : Re.First (.seq digit.plus (.opt (.seq (.char fun c => c == '.') digit.plus)))
      (digitsOf n ++ [], []) ([], []) := by
    refine (first_digits h (by simp) []).seq (Re.First.alt_right ?_ (Re.First.eps _))
    simp
  have hgroup := hnumber.group_read 1
  have hread : String.ofList (digitsOf n) = toString n := String.ofList_toList
  rw [hread, List.append_nil] at hgroup
  have hspace : Re.First (.star space) ([], [(1, toString n)]) ([], [(1, toString n)]) :=
    @Re.First.star_run isSpace [] [] (by simp) (by simp) _
  have hunit := (Re.First.alt_right (a := unit) (b := .eps)
    (Re.results_char_nil _ [(1, toString n)]) (Re.First.eps _)).group 2
  exact (hgroup.seq (hspace.seq (hunit.seq (Re.First.dollar _)))).matchStart

theorem strip_of_not_space {s : String} (h : ∀ c ∈ s.toList, isSpace c = false) : strip s = s := by
  rw [strip, stripChars_of_not_space h, String.ofList_toList]

theorem parseCredits_digits {n : ℤ} (h : 0 ≤ n) : parseCredits some (toString n) = .ok (some n) := by
  have hstrip : strip (toString n) = toString n :=
    strip_of_not_space fun c hc => isSpace_of_isDigit (digitsOf_isDigit h c hc)
  have hne : toString n ≠ "" := by
    intro hempty
    apply digitsOf_ne_nil h
    rw [digitsOf, hempty]
    rfl
  have hone : multiplier "" = 1 := rfl
  unfold parseCredits
  simp only [hstrip, if_neg hne, creditRe_digits h, groupOf, finite]
  show (do
    let number ← Except.ok (decimalValue (toString n) * multiplier "")
    return some (roundHalfEven number) : Except PyErr (Option ℤ)) = _
  rw [decimalValue_digits h, hone, mul_one, ok_bind, roundHalfEven_int]
  rfl

/-- A text with a unit is read as that many tenths of it. -/
theorem parseCredits_tenths {k m : ℤ} (h : 0 ≤ k) {letter : Char} (hletter : UnitLetter letter)
    (hunit : multiplier (String.ofList [letter]) = 10 * m) :
    parseCredits some (tenthsText k ++ String.ofList [letter]) = .ok (some (k * m)) := by
  have hstrip : strip (tenthsText k ++ String.ofList [letter]) =
      tenthsText k ++ String.ofList [letter] := by
    apply strip_of_not_space
    intro c hc
    rw [String.toList_append, String.toList_ofList, toList_tenthsText] at hc
    simp only [List.mem_append, List.mem_cons, List.not_mem_nil, or_false] at hc
    rcases hc with (hc | rfl | hc) | rfl
    · exact isSpace_of_isDigit (digitsOf_isDigit (by omega) c hc)
    · rfl
    · exact isSpace_of_isDigit (digitsOf_isDigit (by omega) c hc)
    · exact hletter.space
  have hne : tenthsText k ++ String.ofList [letter] ≠ "" := by
    intro hempty
    have hlist := congrArg String.toList hempty
    rw [String.toList_append, toList_tenthsText] at hlist
    simp at hlist
  have hvalue : (k : ℚ) / 10 * (10 * m) = ((k * m : ℤ) : ℚ) := by
    push_cast
    ring
  unfold parseCredits
  simp only [hstrip, if_neg hne, creditRe_tenths h hletter, groupOf, finite]
  show (do
    let number ← Except.ok (decimalValue (tenthsText k) * multiplier (String.ofList [letter]))
    return some (roundHalfEven number) : Except PyErr (Option ℤ)) = _
  rw [decimalValue_tenths h, hunit, hvalue, ok_bind, roundHalfEven_int]
  rfl

/-! Formatting what was read back -/

def unitOf (v : ℤ) : ℤ :=
  if 1000000000 ≤ v then 1000000000
  else if 1000000 ≤ v then 1000000
  else if 1000 ≤ v then 1000
  else 1

def readBack (v : ℤ) : ℤ :=
  if 1000000000 ≤ v then roundDiv v 100000000 * 100000000
  else if 1000000 ≤ v then roundDiv v 100000 * 100000
  else if 1000 ≤ v then roundDiv v 100 * 100
  else v

theorem roundDiv_nonneg {v : ℤ} (h : 0 ≤ v) {m : ℕ} (hm : 0 < m) : 0 ≤ roundDiv v m := by
  have hdiv : 0 ≤ v / m := Int.ediv_nonneg h (by omega)
  unfold roundDiv
  split
  · exact hdiv
  · split
    · omega
    · split
      · exact hdiv
      · omega

/-- In exact arithmetic the text of a number is read back. -/
theorem parseCredits_shown {v : ℤ} (h : 0 ≤ v) :
    parseCredits some (shown v) = .ok (some (readBack v)) := by
  unfold shown readBack
  split
  · exact @parseCredits_tenths _ 100000000 (roundDiv_nonneg h (by omega)) 'b' ⟨by decide, rfl, rfl⟩
      (by norm_num; rfl)
  · split
    · exact @parseCredits_tenths _ 100000 (roundDiv_nonneg h (by omega)) 'm' ⟨by decide, rfl, rfl⟩
        (by norm_num; rfl)
    · split
      · exact @parseCredits_tenths _ 100 (roundDiv_nonneg h (by omega)) 'k' ⟨by decide, rfl, rfl⟩
          (by norm_num; rfl)
      · exact parseCredits_digits h

/-- What is read back is off by at most a twentieth of the unit shown. -/
theorem readBack_near {v : ℤ} (h : 0 ≤ v) :
    20 * |readBack v - v| ≤ unitOf v ∧ (v < 1000 → readBack v = v) := by
  have habs : ∀ {n u : ℤ}, -u ≤ 20 * (n - v) → 20 * (n - v) ≤ u → 20 * |n - v| ≤ u := by
    intro n u hlow hhigh
    rcases abs_cases (n - v) with ⟨heq, _⟩ | ⟨heq, _⟩ <;> omega
  unfold readBack unitOf roundDiv
  constructor
  · split_ifs <;> apply habs <;> omega
  · intro hsmall
    split_ifs <;> omega

/-- The numbers that round up to a thousand thousands or a thousand millions. -/
def RoundsUp (v : ℤ) : Prop :=
  (999950 ≤ v ∧ v < 1000000) ∨ (999950000 ≤ v ∧ v < 1000000000)

/-- Away from the change of unit the number read back has the same text. -/
theorem shown_readBack {v : ℤ} (h : 0 ≤ v) (hup : ¬ RoundsUp v) : shown (readBack v) = shown v := by
  have hagain : ∀ (k : ℤ) {m : ℕ}, 0 < m → roundDiv (k * m) m = k := by
    intro k m hm
    have hmod : k * m % m = 0 := Int.mul_emod_left k m
    have hdiv : k * m / m = k := Int.mul_ediv_cancel k (by omega)
    rw [roundDiv, hmod, hdiv, if_pos (by omega)]
  have hb := hagain (roundDiv v 100000000) (m := 100000000) (by omega)
  have hm := hagain (roundDiv v 100000) (m := 100000) (by omega)
  have hk := hagain (roundDiv v 100) (m := 100) (by omega)
  have hrange : (1000000000 ≤ v → 1000000000 ≤ readBack v) ∧
      (v < 1000000000 → readBack v < 1000000000) ∧ (1000000 ≤ v → 1000000 ≤ readBack v) ∧
      (v < 1000000 → readBack v < 1000000) ∧ (1000 ≤ v → 1000 ≤ readBack v) ∧
      (v < 1000 → readBack v < 1000) := by
    unfold RoundsUp at hup
    unfold readBack roundDiv
    split_ifs <;> omega
  obtain ⟨hb₁, hb₂, hm₁, hm₂, hk₁, hk₂⟩ := hrange
  unfold shown
  by_cases hlarge : 1000000000 ≤ v
  · have hread : readBack v = roundDiv v 100000000 * (100000000 : ℕ) := if_pos hlarge
    rw [if_pos hlarge, if_pos (hb₁ hlarge), hread, hb]
  · rw [if_neg hlarge, if_neg (by omega)]
    by_cases hmiddle : 1000000 ≤ v
    · have hread : readBack v = roundDiv v 100000 * (100000 : ℕ) := by
        rw [readBack, if_neg hlarge, if_pos hmiddle]
        rfl
      rw [if_pos hmiddle, if_pos (hm₁ hmiddle), hread, hm]
    · rw [if_neg hmiddle, if_neg (by omega)]
      by_cases hsmall : 1000 ≤ v
      · have hread : readBack v = roundDiv v 100 * (100 : ℕ) := by
          rw [readBack, if_neg hlarge, if_neg hmiddle, if_pos hsmall]
          rfl
        rw [if_pos hsmall, if_pos (hk₁ hsmall), hread, hk]
      · rw [if_neg hsmall, if_neg (by omega), readBack, if_neg hlarge, if_neg hmiddle, if_neg hsmall]

/-- A number that rounds up to a thousand of its unit is read back as one of the next unit,
which prints differently. -/
theorem shown_roundsUp {v : ℤ} (hup : RoundsUp v) : shown (readBack v) ≠ shown v := by
  rcases hup with ⟨hlow, hhigh⟩ | ⟨hlow, hhigh⟩
  · have hround : roundDiv v 100 = 10000 := by
      unfold roundDiv
      split_ifs <;> omega
    have hread : readBack v = 1000000 := by
      rw [readBack, if_neg (by omega), if_neg (by omega), if_pos (by omega), hround]
      rfl
    have hshown : shown v = "1000.0k" := by
      rw [shown, if_neg (by omega), if_neg (by omega), if_pos (by omega), hround]
      rfl
    rw [hread, hshown]
    decide
  · have hround : roundDiv v 100000 = 10000 := by
      unfold roundDiv
      split_ifs <;> omega
    have hread : readBack v = 1000000000 := by
      rw [readBack, if_neg (by omega), if_pos (by omega), hround]
      rfl
    have hshown : shown v = "1000.0m" := by
      rw [shown, if_neg (by omega), if_pos (by omega), hround]
      rfl
    rw [hread, hshown]
    decide

/-- Every number has a text that is read back to within a twentieth of the unit shown. -/
theorem credits_read_back {v : ℤ} (h : 0 ≤ v) (hv : v < 2 ^ 63) :
    ∃ text n, formatCredits some py (.int v) = .ok text ∧ parseCredits some text = .ok (some n) ∧
      20 * |n - v| ≤ unitOf v ∧ (v < 1000 → n = v) :=
  ⟨shown v, readBack v, formatCredits_shown h (by omega), parseCredits_shown h, readBack_near h⟩

/-- The text is read back closely, and the number read has the same text. -/
def Stable (py : Runtime) (v : ℤ) : Prop :=
  ∃ text n, formatCredits some py (.int v) = .ok text ∧ parseCredits some text = .ok (some n) ∧
    20 * |n - v| ≤ unitOf v ∧ (v < 1000 → n = v) ∧ formatCredits some py (.int n) = .ok text

/-- Shorthand is stable but for the numbers just below a million and a billion. -/
theorem shorthand_stable_iff (py : Runtime) {v : ℤ} (h : 0 ≤ v) (hv : v < 2 ^ 63) :
    Stable py v ↔ ¬ RoundsUp v := by
  have hread : 0 ≤ readBack v ∧ readBack v < 10 ^ 22 := by
    unfold readBack roundDiv
    split_ifs <;> omega
  have hagain := @formatCredits_shown py (readBack v) hread.1 hread.2
  constructor
  · rintro ⟨text, n, hformat, hparse, _, _, hsame⟩ hup
    rw [formatCredits_shown h (by omega)] at hformat
    cases hformat
    rw [parseCredits_shown h] at hparse
    cases hparse
    rw [hagain] at hsame
    exact shown_roundsUp hup (Except.ok.inj hsame)
  · intro hup
    refine ⟨shown v, readBack v, formatCredits_shown h (by omega), parseCredits_shown h,
      (readBack_near h).1, (readBack_near h).2, ?_⟩
    rw [hagain, shown_readBack h hup]

theorem readme_example_stable : Stable .ascii 1500000 :=
  (shorthand_stable_iff .ascii (by decide) (by decide)).mpr (by unfold RoundsUp; omega)

/-- 999950 is shown as 1000.0k, which is read as a million and shown as 1.0m. -/
theorem thousand_thousands_unstable : ¬ Stable .ascii 999950 := by
  rintro ⟨text, n, hformat, hparse, _, _, hsame⟩
  have htext : formatCredits some Runtime.ascii (.int 999950) = .ok "1000.0k" :=
    formatCredits_shown (by decide) (by decide)
  rw [htext] at hformat
  cases hformat
  have hread : parseCredits some "1000.0k" = .ok (some 1000000) :=
    @parseCredits_shown 999950 (by decide)
  rw [hread] at hparse
  cases hparse
  have hmillion : formatCredits some Runtime.ascii (.int 1000000) = .ok "1.0m" :=
    formatCredits_shown (by decide) (by decide)
  rw [hmillion] at hsame
  exact absurd (Except.ok.inj hsame) (by decide)

end AoMarket.CreditText
