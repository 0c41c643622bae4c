import Mathlib.Data.List.Basic
import Mathlib.Tactic.IntervalCases

/-!
Hexadecimal text. A number is written with lower-case digits and no sign, a byte
as two digits; both are read back, and a text of an even number of digits is
always the text of some bytes.
-/

namespace AoMarket.HexText

def hexValue (c : Char) : Option ℕ :=
  if '0' ≤ c ∧ c ≤ '9' then some (c.toNat - '0'.toNat)
  else if 'a' ≤ c ∧ c ≤ 'f' then some (c.toNat - 'a'.toNat + 10)
  else if 'A' ≤ c ∧ c ≤ 'F' then some (c.toNat - 'A'.toNat + 10)
  else none

/-- A lower-case digit. -/
def IsHex (c : Char) : Prop := ∃ d, d < 16 ∧ c = Nat.digitChar d

theorem hexValue_digitChar {d : ℕ} (h : d < 16) : hexValue (Nat.digitChar d) = some d := by
  interval_cases d <;> rfl

/-! Numbers -/

def natOfHex (l : List Char) : Option ℕ :=
  l.foldl (fun acc c => acc.bind fun n => (hexValue c).map fun d => 16 * n + d) (some 0)

theorem natOfHex_append (l : List Char) {d : ℕ} (h : d < 16) :
    natOfHex (l ++ [Nat.digitChar d]) = (natOfHex l).map fun n => 16 * n + d := by
  simp only [natOfHex, List.foldl_append, List.foldl_cons, List.foldl_nil, hexValue_digitChar h,
    Option.map_some]
  cases List.foldl _ _ l <;> rfl

/-- A number written in hexadecimal is read back. -/
theorem natOfHex_toDigits (n : ℕ) : natOfHex (Nat.toDigits 16 n) = some n := by
  induction n using Nat.strongRecOn with
  | ind n ih =>
    rw [Nat.toDigits_eq_if (by decide)]
    by_cases hn : n < 16
    · have hone := natOfHex_append [] hn
      rw [if_pos hn, ← List.nil_append [_], hone]
      simp [natOfHex]
    · rw [if_neg hn, natOfHex_append _ (by omega), ih (n / 16) (by omega)]
      simp only [Option.map_some, Option.some.injEq]
      omega

theorem isHex_of_mem_toDigits {n : ℕ} {c : Char} (h : c ∈ Nat.toDigits 16 n) : IsHex c := by
  induction n using Nat.strongRecOn with
  | ind n ih =>
    rw [Nat.toDigits_eq_if (by decide)] at h
    by_cases hn : n < 16
    · rw [if_pos hn, List.mem_singleton] at h
      exact ⟨n, hn, h⟩
    · rw [if_neg hn, List.mem_append, List.mem_singleton] at h
      rcases h with h | h
      · exact ih (n / 16) (by omega) h
      · exact ⟨n % 16, by omega, h⟩

theorem isHex_ne_minus {c : Char} (h : IsHex c) : c ≠ '-' := by
  obtain ⟨d, hd, rfl⟩ := h
  interval_cases d <;> decide

/-! Bytes -/

def isBlank (c : Char) : Bool := c == ' ' || (9 ≤ c.toNat && c.toNat ≤ 13)

theorem isBlank_isHex {c : Char} (h : IsHex c) : isBlank c = false := by
  obtain ⟨d, hd, rfl⟩ := h
  interval_cases d <;> rfl

def hexOfBytes (b : List UInt8) : List Char :=
  b.flatMap fun x => [Nat.digitChar (x.toNat / 16), Nat.digitChar (x.toNat % 16)]

/-- Blanks may stand between the bytes. -/
def bytesOfHex : List Char → Option (List UInt8)
  | [] => some []
  | [c] => if isBlank c then some [] else none
  | c :: d :: rest =>
    if isBlank c then bytesOfHex (d :: rest)
    else
      (hexValue c).bind fun high => (hexValue d).bind fun low =>
        (bytesOfHex rest).map fun bytes => UInt8.ofNat (16 * high + low) :: bytes

theorem bytesOfHex_cons {high low : ℕ} (hhigh : high < 16) (hlow : low < 16) (rest : List Char) :
    bytesOfHex (Nat.digitChar high :: Nat.digitChar low :: rest) =
      (bytesOfHex rest).map fun bytes => UInt8.ofNat (16 * high + low) :: bytes := by
  have hblank := isBlank_isHex ⟨high, hhigh, rfl⟩
  simp [bytesOfHex, hblank, hexValue_digitChar hhigh, hexValue_digitChar hlow]

/-- Bytes written in hexadecimal are read back. -/
theorem bytesOfHex_hexOfBytes (b : List UInt8) : bytesOfHex (hexOfBytes b) = some b := by
  induction b with
  | nil => rfl
  | cons x b ih =>
    have hx : x.toNat < 256 := x.toNat_lt
    have hcons : hexOfBytes (x :: b) =
        Nat.digitChar (x.toNat / 16) :: Nat.digitChar (x.toNat % 16) :: hexOfBytes b := rfl
    have hval : 16 * (x.toNat / 16) + x.toNat % 16 = x.toNat := by omega
    rw [hcons, bytesOfHex_cons (by omega) (by omega), ih, hval, UInt8.ofNat_toNat]
    rfl

theorem isBlank_of_hexValue {c : Char} (h : (hexValue c).isSome = true) : isBlank c = false := by
  have hlow : 48 ≤ c.toNat := by
    unfold hexValue at h
    split at h
    · next hc => exact hc.1
    · split at h
      · next hc => exact le_trans (by decide) (show 'a'.toNat ≤ c.toNat from hc.1)
      · split at h
        · next hc => exact le_trans (by decide) (show 'A'.toNat ≤ c.toNat from hc.1)
        · cases h
  have hspace : c ≠ ' ' := by
    rintro rfl
    exact absurd hlow (by decide)
  have hctl : ¬ (9 ≤ c.toNat ∧ c.toNat ≤ 13) := by omega
  simp [isBlank, hspace]
  omega

/-- An even number of digits is the text of half as many bytes. -/
theorem bytesOfHex_of_hexValue {m : ℕ} {l : List Char} (hlen : l.length = 2 * m)
    (h : ∀ c ∈ l, (hexValue c).isSome = true) : ∃ b, bytesOfHex l = some b ∧ b.length = m := by
  induction m generalizing l with
  | zero =>
    have hnil : l = [] := List.eq_nil_of_length_eq_zero (by omega)
    exact ⟨[], by rw [hnil]; rfl, rfl⟩
  | succ m ih =>
    match l, hlen, h with
    | c :: d :: rest, hlen, h =>
      have hc := h c List.mem_cons_self
      obtain ⟨high, hhigh⟩ := Option.isSome_iff_exists.mp hc
      obtain ⟨low, hlow⟩ :=
        Option.isSome_iff_exists.mp (h d (List.mem_cons_of_mem _ List.mem_cons_self))
      have hrest : rest.length = 2 * m := by
        simp only [List.length_cons] at hlen
        omega
      obtain ⟨b, hb, hblen⟩ := ih hrest fun e he =>
        h e (List.mem_cons_of_mem _ (List.mem_cons_of_mem _ he))
      refine ⟨UInt8.ofNat (16 * high + low) :: b, ?_, ?_⟩
      · simp [bytesOfHex, isBlank_of_hexValue hc, hhigh, hlow, hb]
      · rw [List.length_cons, hblen]

theorem hexValue_isHex {c : Char} (h : IsHex c) : (hexValue c).isSome = true := by
  obtain ⟨d, hd, rfl⟩ := h
  rw [hexValue_digitChar hd]
  rfl

theorem isHex_of_mem_hexOfBytes {b : List UInt8} {c : Char} (h : c ∈ hexOfBytes b) : IsHex c := by
  obtain ⟨x, _, hc⟩ := List.mem_flatMap.mp h
  have hx : x.toNat < 256 := x.toNat_lt
  rcases List.mem_pair.mp hc with rfl | rfl
  · exact ⟨x.toNat / 16, by omega, rfl⟩
  · exact ⟨x.toNat % 16, by omega, rfl⟩

theorem length_hexOfBytes (b : List UInt8) : (hexOfBytes b).length = 2 * b.length := by
  induction b with
  | nil => rfl
  | cons x b ih =>
    have hcons : (hexOfBytes (x :: b)).length = 2 + (hexOfBytes b).length := by
      simp [hexOfBytes]
      omega
    rw [hcons, ih, List.length_cons]
    omega

theorem hexOfBytes_injective : Function.Injective hexOfBytes := by
  intro a b h
  have hread : bytesOfHex (hexOfBytes a) = bytesOfHex (hexOfBytes b) := by rw [h]
  rw [bytesOfHex_hexOfBytes, bytesOfHex_hexOfBytes] at hread
  exact Option.some.inj hread

end AoMarket.HexText
