import AoMarket.PyNumber
import Mathlib.Data.List.TakeWhile

/-!
Python strings: whitespace and strip, lower case, repr, int() and the values
json.loads can build. What depends on the interpreter's Unicode tables, on its
float printer or on its version is a parameter, `Runtime`; the ASCII part of int()
is fixed by a law, and so is that no space is a digit.
-/

namespace AoMarket.PyText

open PyNumber

/-- `str.isspace`, which is also what `\s` matches. -/
def isSpace (c : Char) : Bool :=
  let n := c.toNat
  (9 ≤ n && n ≤ 13) || (28 ≤ n && n ≤ 32) || n == 0x85 || n == 0xa0 || n == 0x1680 ||
    (0x2000 ≤ n && n ≤ 0x200a) || n == 0x2028 || n == 0x2029 || n == 0x202f ||
    n == 0x205f || n == 0x3000

def stripWith (blank : Char → Bool) (l : List Char) : List Char :=
  ((l.dropWhile blank).reverse.dropWhile blank).reverse

def stripChars (l : List Char) : List Char := stripWith isSpace l

def strip (s : String) : String := String.ofList (stripChars s.toList)

/-- Lower case on ASCII and Latin-1; the bot's texts come from latin-1 packets. -/
def lowerChar (c : Char) : Char :=
  let n := c.toNat
  if (65 ≤ n && n ≤ 90) || (0xc0 ≤ n && n ≤ 0xde && n != 0xd7) then Char.ofNat (n + 32) else c

def lower (s : String) : String := String.ofList (s.toList.map lowerChar)

def digitValue (c : Char) : Option ℕ :=
  if '0' ≤ c ∧ c ≤ '9' then some (c.toNat - '0'.toNat) else none

/-- What json.loads builds. -/
inductive PyVal where
  | none
  | bool (b : Bool)
  | num (n : PyNum)
  | str (s : String)
  | list (l : List PyVal)
  | dict (kvs : List (String × PyVal))
deriving BEq

structure Runtime where
  isPrintable : Char → Bool
  decimal : Char → Option ℕ
  decimal_ascii : ∀ c, c.toNat < 128 → decimal c = digitValue c
  decimal_space : ∀ c, isSpace c = true → decimal c = none
  floatRepr : PyFloat → String
  parseFloat : String → Option PyFloat
  containerRepr : PyVal → String
  listLt : List PyVal → List PyVal → Option Bool
  compensatedSum : Bool

/-- An interpreter that knows ASCII and no floats. -/
def Runtime.ascii : Runtime where
  isPrintable c := 32 ≤ c.toNat && c.toNat < 127
  decimal := digitValue
  decimal_ascii _ _ := rfl
  decimal_space c h := by
    unfold digitValue
    split
    · next hdigit =>
      obtain ⟨hlow, hhigh⟩ : 48 ≤ c.toNat ∧ c.toNat ≤ 57 := hdigit
      simp only [isSpace, Bool.or_eq_true, Bool.and_eq_true, decide_eq_true_eq, beq_iff_eq] at h
      omega
    · rfl
  floatRepr _ := "nan"
  parseFloat _ := none
  containerRepr _ := "[]"
  listLt _ _ := none
  compensatedSum := true

/-- CPython refuses to convert longer decimal strings. -/
def maxStrDigits : ℕ := 4300

/-- Digits with single underscores between them; `prev` says a digit came last. -/
def readDigits (dec : Char → Option ℕ) : Bool → ℕ → List Char → Option ℕ
  | prev, acc, [] => if prev then some acc else none
  | prev, acc, c :: cs =>
    match dec c with
    | some d => readDigits dec true (10 * acc + d) cs
    | none => if c = '_' ∧ prev then readDigits dec false acc cs else none

/-- The space around an integer: `int()` takes of ASCII only the C library's, so not
U+001C to U+001F. -/
def isIntSpace (c : Char) : Bool := isSpace c && !(28 ≤ c.toNat && c.toNat ≤ 31)

/-- `int(s)`; `none` is ValueError. -/
def parseInt (dec : Char → Option ℕ) (s : String) : Option ℤ :=
  let body := stripWith isIntSpace s.toList
  let magnitude (cs : List Char) : Option ℕ :=
    if (cs.filter fun c => (dec c).isSome).length ≤ maxStrDigits then readDigits dec false 0 cs
    else none
  match body with
  | '-' :: cs => (magnitude cs).map fun n : ℕ => -(n : ℤ)
  | '+' :: cs => (magnitude cs).map fun n : ℕ => (n : ℤ)
  | cs => (magnitude cs).map fun n : ℕ => (n : ℤ)

def hexDigits (width n : ℕ) : String :=
  let ds := Nat.toDigits 16 n
  String.ofList (List.replicate (width - ds.length) '0' ++ ds)

def reprChar (py : Runtime) (quote c : Char) : String :=
  let n := c.toNat
  let backslash := String.singleton (Char.ofNat 92)
  if c = quote ∨ n = 92 then backslash ++ String.singleton c
  else if n = 9 then backslash ++ "t"
  else if n = 10 then backslash ++ "n"
  else if n = 13 then backslash ++ "r"
  else if 32 ≤ n ∧ n < 127 then String.singleton c
  else if 128 ≤ n ∧ py.isPrintable c then String.singleton c
  else if n ≤ 0xff then backslash ++ "x" ++ hexDigits 2 n
  else if n ≤ 0xffff then backslash ++ "u" ++ hexDigits 4 n
  else backslash ++ "U" ++ hexDigits 8 n

/-- `repr(s)`: double quotes only around a text with single quotes and no double ones. -/
def repr (py : Runtime) (s : String) : String :=
  let single := Char.ofNat 39
  let double := Char.ofNat 34
  let quote := if single ∈ s.toList ∧ double ∉ s.toList then double else single
  String.singleton quote ++ String.join (s.toList.map (reprChar py quote)) ++
    String.singleton quote

namespace PyVal

/-- Numbers for arithmetic and order; bool is a subclass of int. -/
def num? : PyVal → Option PyNum
  | num n => some n
  | bool b => some (.int (if b then 1 else 0))
  | _ => Option.none

/-- `a == b`. -/
def eq (a b : PyVal) : Bool :=
  match a.num?, b.num? with
  | some x, some y => x.eq y
  | _, _ => a == b

/-- `a < b`; `none` is TypeError. -/
def lt (py : Runtime) (a b : PyVal) : Option Bool :=
  match a.num?, b.num? with
  | some x, some y => some (x.lt y)
  | _, _ =>
    match a, b with
    | str s, str t => some (decide (s < t))
    | list l, list m => py.listLt l m
    | _, _ => Option.none

/-- `min(xs)` of a list beginning with `best`; `none` is TypeError. -/
def minFrom (py : Runtime) : PyVal → List PyVal → Option PyVal
  | best, [] => some best
  | best, v :: rest => do
    let less ← lt py v best
    minFrom py (if less then v else best) rest

def maxFrom (py : Runtime) : PyVal → List PyVal → Option PyVal
  | best, [] => some best
  | best, v :: rest => do
    let less ← lt py best v
    maxFrom py (if less then v else best) rest

/-- `f"{v}"`. -/
def format (py : Runtime) : PyVal → String
  | none => "None"
  | bool b => if b then "True" else "False"
  | num (.int n) => toString n
  | num (.float x) => py.floatRepr x
  | str s => s
  | v => py.containerRepr v

end PyVal

/-! Decimal text of integers -/

theorem toList_toString_nat (n : ℕ) : (toString n).toList = Nat.toDigits 10 n := by
  rw [Nat.toString_eq_ofList_toDigits, String.toList_ofList]

theorem toString_nat_injective {m n : ℕ} (h : toString m = toString n) : m = n := by
  have hd : Nat.toDigits 10 m = Nat.toDigits 10 n := by
    rw [← toList_toString_nat, ← toList_toString_nat, h]
  have hv := congrArg (fun l => Nat.ofDigitChars 10 l 0) hd
  simpa only [Nat.ofDigitChars_ten_toDigits] using hv

theorem isDigit_of_mem_toString_nat {n : ℕ} {c : Char} (h : c ∈ (toString n).toList) :
    c.isDigit := by
  rw [toList_toString_nat] at h
  exact Nat.isDigit_of_mem_toDigits (by omega) (by omega) h

theorem toList_toString_int (n : ℤ) :
    (toString n).toList =
      if 0 ≤ n then (toString n.toNat).toList else '-' :: (toString (-n).toNat).toList := by
  rw [Int.toString_eq_repr, Int.repr_eq_if]
  split
  · rfl
  · rw [String.toList_append]
    rfl

theorem mem_toString_int {n : ℤ} {c : Char} (h : c ∈ (toString n).toList) :
    c = '-' ∨ c.isDigit := by
  rw [toList_toString_int] at h
  split at h
  · exact Or.inr (isDigit_of_mem_toString_nat h)
  · rcases List.mem_cons.mp h with hc | hc
    · exact Or.inl hc
    · exact Or.inr (isDigit_of_mem_toString_nat hc)

theorem bar_not_mem_toString_int (n : ℤ) : '|' ∉ (toString n).toList := by
  intro h
  rcases mem_toString_int h with hc | hc
  · exact absurd hc (by decide)
  · exact absurd hc (by decide)

private theorem minus_not_mem (n : ℕ) : '-' ∉ (toString n).toList := by
  intro h
  exact absurd (isDigit_of_mem_toString_nat h) (by decide)

theorem toString_int_injective {m n : ℤ} (h : toString m = toString n) : m = n := by
  have hl : (toString m).toList = (toString n).toList := by rw [h]
  rw [toList_toString_int, toList_toString_int] at hl
  by_cases hm : 0 ≤ m
  · by_cases hn : 0 ≤ n
    · rw [if_pos hm, if_pos hn] at hl
      have := toString_nat_injective (String.toList_inj.mp hl)
      omega
    · rw [if_pos hm, if_neg hn] at hl
      exact absurd (hl ▸ List.mem_cons_self) (minus_not_mem m.toNat)
  · by_cases hn : 0 ≤ n
    · rw [if_neg hm, if_pos hn] at hl
      exact absurd (hl ▸ List.mem_cons_self) (minus_not_mem n.toNat)
    · rw [if_neg hm, if_neg hn] at hl
      have := toString_nat_injective (String.toList_inj.mp (List.cons.inj hl).2)
      omega

/-! int() of the text of an integer -/

theorem digitValue_of_isDigit {c : Char} (h : c.isDigit) :
    digitValue c = some (c.toNat - '0'.toNat) := by
  have hrange : '0' ≤ c ∧ c ≤ '9' := by
    simpa [Char.isDigit, Char.le_def] using h
  unfold digitValue
  rw [if_pos hrange]

theorem lt_128_of_isDigit {c : Char} (h : c.isDigit) : c.toNat < 128 := by
  have hle : c.toNat ≤ '9'.toNat := by
    have hc : c ≤ '9' := by
      have := h
      simp only [Char.isDigit, Bool.and_eq_true, decide_eq_true_eq] at this
      exact this.2
    exact hc
  have hnine : '9'.toNat = 57 := rfl
  omega

/-- A text of digits is the number they denote. -/
theorem readDigits_of_isDigit {dec : Char → Option ℕ}
    (hdec : ∀ c : Char, c.isDigit → dec c = some (c.toNat - '0'.toNat)) {l : List Char}
    (hl : ∀ c ∈ l, c.isDigit) (hne : l ≠ []) (prev : Bool) (acc : ℕ) :
    readDigits dec prev acc l = some (Nat.ofDigitChars 10 l acc) := by
  induction l generalizing prev acc with
  | nil => exact absurd rfl hne
  | cons c rest ih =>
    rw [readDigits, hdec c (hl c List.mem_cons_self), Nat.ofDigitChars_cons]
    cases rest with
    | nil => simp [readDigits]
    | cons d rest => exact ih (fun e he => hl e (List.mem_cons_of_mem c he)) (by simp) true _

theorem isSpace_of_isDigit {c : Char} (h : c.isDigit) : isSpace c = false := by
  have hlow : 48 ≤ c.toNat := by
    simp only [Char.isDigit, Bool.and_eq_true, decide_eq_true_eq] at h
    exact h.1
  have hhigh := lt_128_of_isDigit h
  simp only [isSpace]
  simp only [Bool.or_eq_false_iff, Bool.and_eq_false_iff, decide_eq_false_iff_not, beq_eq_false_iff_ne]
  omega

/-! Stripping -/

section Strip
variable {blank : Char → Bool} {l : List Char}

theorem dropWhile_of_not {m : List Char} (h : ∀ c ∈ m, blank c = false) :
    m.dropWhile blank = m := by
  cases m with
  | nil => rfl
  | cons c rest => simp [h c List.mem_cons_self]

theorem stripWith_of_not (h : ∀ c ∈ l, blank c = false) : stripWith blank l = l := by
  unfold stripWith
  rw [dropWhile_of_not h, dropWhile_of_not fun c hc => h c (List.mem_reverse.mp hc),
    List.reverse_reverse]

theorem stripChars_of_not_space (h : ∀ c ∈ l, isSpace c = false) : stripChars l = l :=
  stripWith_of_not h

/-- Stripping drops blanks at the ends. -/
theorem stripWith_split (blank : Char → Bool) (l : List Char) :
    ∃ before after, l = before ++ stripWith blank l ++ after ∧
      (∀ c ∈ before, blank c = true) ∧ ∀ c ∈ after, blank c = true := by
  refine ⟨l.takeWhile blank, ((l.dropWhile blank).reverse.takeWhile blank).reverse, ?_,
    fun c hc => List.mem_takeWhile_imp hc, fun c hc => ?_⟩
  · unfold stripWith
    rw [List.append_assoc, ← List.reverse_append, List.takeWhile_append_dropWhile,
      List.reverse_reverse, List.takeWhile_append_dropWhile]
  · exact List.mem_takeWhile_imp (List.mem_reverse.mp hc)

theorem stripWith_surrounded {before after : List Char} (hbefore : ∀ c ∈ before, blank c = true)
    (hafter : ∀ c ∈ after, blank c = true) (h : ∀ c ∈ l, blank c = false) :
    stripWith blank (before ++ l ++ after) = l := by
  have hfront : (before ++ l ++ after).dropWhile blank = (l ++ after).dropWhile blank := by
    rw [List.append_assoc, List.dropWhile_append_of_pos hbefore]
  have hback : (l ++ after).reverse.dropWhile blank = l.reverse := by
    rw [List.reverse_append, List.dropWhile_append_of_pos fun c hc =>
      hafter c (List.mem_reverse.mp hc)]
    exact dropWhile_of_not fun c hc => h c (List.mem_reverse.mp hc)
  unfold stripWith
  rw [hfront]
  cases l with
  | nil => simp [List.dropWhile_eq_nil_iff.mpr hafter]
  | cons c rest =>
    rw [List.cons_append, List.dropWhile_cons_of_neg (by simp [h c List.mem_cons_self]),
      ← List.cons_append, hback, List.reverse_reverse]

end Strip

/-! Stripping twice -/

theorem dropWhile_dropWhile (l : List Char) :
    (l.dropWhile isSpace).dropWhile isSpace = l.dropWhile isSpace := by
  have hhead := List.head?_dropWhile_not isSpace l
  cases hrest : l.dropWhile isSpace with
  | nil => rfl
  | cons c rest =>
    rw [hrest] at hhead
    exact List.dropWhile_cons_of_neg (by simpa using hhead)

theorem stripChars_dropWhile (l : List Char) :
    stripChars (l.dropWhile isSpace) = stripChars l := by
  unfold stripChars stripWith
  rw [dropWhile_dropWhile]

theorem stripChars_stripChars (l : List Char) : stripChars (stripChars l) = stripChars l := by
  -- the stripped text begins as the text without its leading space does
  have hprefix : stripChars l <+: l.dropWhile isSpace := by
    unfold stripChars stripWith
    rw [← List.reverse_suffix, List.reverse_reverse]
    exact List.dropWhile_suffix isSpace
  have hleft : (stripChars l).dropWhile isSpace = stripChars l := by
    have hhead := List.head?_dropWhile_not isSpace l
    cases hstrip : stripChars l with
    | nil => rfl
    | cons c rest =>
      rw [hstrip] at hprefix
      obtain ⟨tail, htail⟩ := hprefix
      rw [← htail] at hhead
      exact List.dropWhile_cons_of_neg (by simpa using hhead)
  have hright : (stripChars l).reverse.dropWhile isSpace = (stripChars l).reverse := by
    unfold stripChars stripWith
    rw [List.reverse_reverse, dropWhile_dropWhile]
  have htwice : stripChars (stripChars l) =
      (((stripChars l).dropWhile isSpace).reverse.dropWhile isSpace).reverse := rfl
  rw [htwice, hleft, hright, List.reverse_reverse]

theorem strip_strip (s : String) : strip (strip s) = strip s := by
  unfold strip
  rw [String.toList_ofList, stripChars_stripChars]

theorem isIntSpace_of_not {c : Char} (h : isSpace c = false) : isIntSpace c = false := by
  rw [isIntSpace, h, Bool.false_and]

/-- What is read holds nothing but digits and underscores. -/
theorem readDigits_chars {dec : Char → Option ℕ} {prev : Bool} {acc n : ℕ} {l : List Char}
    (h : readDigits dec prev acc l = some n) : ∀ c ∈ l, (dec c).isSome ∨ c = '_' := by
  induction l generalizing prev acc with
  | nil => simp
  | cons c rest ih =>
    rw [readDigits] at h
    cases hdec : dec c with
    | some d =>
      rw [hdec] at h
      exact List.forall_mem_cons.mpr ⟨Or.inl (by simp [hdec]), ih h⟩
    | none =>
      rw [hdec] at h
      dsimp only at h
      split at h
      · next hunderscore => exact List.forall_mem_cons.mpr ⟨Or.inr hunderscore.1, ih h⟩
      · cases h

/-- An integer has no space inside. -/
theorem not_space_of_parseInt {py : Runtime} {s : String} {n : ℤ}
    (h : parseInt py.decimal s = some n) :
    ∀ c ∈ stripWith isIntSpace s.toList, isSpace c = false := by
  have hdigits : ∀ {cs : List Char} {sign : ℕ → ℤ},
      ((if (cs.filter fun c => (py.decimal c).isSome).length ≤ maxStrDigits then
        readDigits py.decimal false 0 cs else none).map sign) = some n →
      ∀ c ∈ cs, isSpace c = false := by
    intro cs sign hread c hc
    obtain ⟨k, hk, _⟩ := Option.map_eq_some_iff.mp hread
    split at hk
    · rcases readDigits_chars hk c hc with hdigit | rfl
      · by_contra hspace
        rw [py.decimal_space c (by simpa using hspace)] at hdigit
        cases hdigit
      · rfl
    · cases hk
  unfold parseInt at h
  dsimp only at h
  split at h
  · next hbody => exact hbody ▸ List.forall_mem_cons.mpr ⟨rfl, hdigits h⟩
  · next hbody => exact hbody ▸ List.forall_mem_cons.mpr ⟨rfl, hdigits h⟩
  · exact hdigits h

/-- `int()` reads a text it takes as before once the text was stripped. -/
theorem parseInt_strip {py : Runtime} {s : String} {n : ℤ} (h : parseInt py.decimal s = some n) :
    parseInt py.decimal (strip s) = some n := by
  have hplain := not_space_of_parseInt h
  obtain ⟨before, after, hsplit, hbefore, hafter⟩ := stripWith_split isIntSpace s.toList
  have hspace : ∀ {c}, isIntSpace c = true → isSpace c = true :=
    fun hc => (Bool.and_eq_true_iff.mp hc).1
  have hstrip : (strip s).toList = stripWith isIntSpace s.toList := by
    unfold strip stripChars
    rw [String.toList_ofList]
    conv_lhs => rw [hsplit]
    exact stripWith_surrounded (fun c hc => hspace (hbefore c hc)) (fun c hc => hspace (hafter c hc))
      hplain
  have hsame : stripWith isIntSpace (strip s).toList = stripWith isIntSpace s.toList := by
    rw [hstrip]
    exact stripWith_of_not fun c hc => isIntSpace_of_not (hplain c hc)
  have heq : parseInt py.decimal (strip s) = parseInt py.decimal s := by
    unfold parseInt
    rw [hsame]
  rw [heq]
  exact h

/-- `int()` of a text of ASCII digits. -/
theorem parseInt_digits {dec : Char → Option ℕ} {s : String} (h : ∀ c ∈ s.toList, c.isDigit) :
    parseInt dec s = (if (s.toList.filter fun c => (dec c).isSome).length ≤ maxStrDigits then
      readDigits dec false 0 s.toList else none).map fun k : ℕ => (k : ℤ) := by
  have hstrip : stripWith isIntSpace s.toList = s.toList :=
    stripWith_of_not fun c hc => isIntSpace_of_not (isSpace_of_isDigit (h c hc))
  unfold parseInt
  simp only [hstrip]
  split
  · next cs hcs =>
    have hminus := h '-' (hcs ▸ List.mem_cons_self)
    exact absurd hminus (by decide)
  · next cs hcs =>
    have hplus := h '+' (hcs ▸ List.mem_cons_self)
    exact absurd hplus (by decide)
  · generalize (if (s.toList.filter fun c => (dec c).isSome).length ≤ maxStrDigits then
      readDigits dec false 0 s.toList else none) = magnitude
    cases magnitude with
    | none => rfl
    | some k => rfl

theorem decimal_of_isDigit (py : Runtime) (c : Char) (hc : c.isDigit) :
    py.decimal c = some (c.toNat - '0'.toNat) := by
  rw [py.decimal_ascii c (lt_128_of_isDigit hc), digitValue_of_isDigit hc]

/-- A number that is printed with no more digits than `int()` takes is read back. -/
theorem parseInt_toString (py : Runtime) {n : ℤ}
    (h : (toString n.natAbs).length ≤ maxStrDigits) : parseInt py.decimal (toString n) = some n := by
  have hdigits : ∀ c ∈ Nat.toDigits 10 n.natAbs, c.isDigit :=
    fun c hc => Nat.isDigit_of_mem_toDigits (by omega) (by omega) hc
  have hlen : (Nat.toDigits 10 n.natAbs).length ≤ maxStrDigits := by
    rw [← toList_toString_nat, String.length_toList]
    exact h
  have hread : (if ((Nat.toDigits 10 n.natAbs).filter fun c => (py.decimal c).isSome).length ≤
        maxStrDigits then readDigits py.decimal false 0 (Nat.toDigits 10 n.natAbs) else none) =
      some n.natAbs := by
    rw [if_pos (le_trans (List.length_filter_le _ _) hlen),
      readDigits_of_isDigit (decimal_of_isDigit py) hdigits (by simp),
      Nat.ofDigitChars_ten_toDigits]
  by_cases hn : 0 ≤ n
  · have habs : n.toNat = n.natAbs := by omega
    have htext : (toString n).toList = Nat.toDigits 10 n.natAbs := by
      rw [toList_toString_int, if_pos hn, toList_toString_nat, habs]
    rw [parseInt_digits (htext ▸ hdigits), htext, hread]
    show some ((n.natAbs : ℤ)) = some n
    rw [Int.natAbs_of_nonneg hn]
  · have habs : (-n).toNat = n.natAbs := by omega
    have hstrip : stripWith isIntSpace (toString n).toList = (toString n).toList := by
      apply stripWith_of_not
      intro c hc
      rcases mem_toString_int hc with rfl | hc
      · rfl
      · exact isIntSpace_of_not (isSpace_of_isDigit hc)
    unfold parseInt
    simp only [hstrip]
    rw [toList_toString_int, if_neg hn, toList_toString_nat, habs]
    simp only [hread]
    show some (-(n.natAbs : ℤ)) = some n
    rw [Int.ofNat_natAbs_of_nonpos (by omega), neg_neg]

end AoMarket.PyText
