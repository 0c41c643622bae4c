import AoMarket.BookNumbers

/-!
Texts without a NUL character, which is what a text column takes. Texts built from
numbers and from such texts are such texts, so the fingerprints of a book and the
alerts written from it are.
-/

namespace AoMarket.StorableText

open OrderBook PyNumber PyText Environment Rendering Polling BookNumbers

def Clean (s : String) : Prop := Char.ofNat 0 ∉ s.toList

instance (s : String) : Decidable (Clean s) := by
  unfold Clean
  infer_instance

@[simp] theorem clean_append {s t : String} : Clean (s ++ t) ↔ Clean s ∧ Clean t := by
  simp [Clean, String.toList_append, not_or]

@[simp] theorem clean_toString {s : String} : Clean (toString s) ↔ Clean s := Iff.rfl

@[simp] theorem clean_int (n : ℤ) : Clean (toString n) := by
  intro h
  rcases mem_toString_int h with hc | hc
  · exact absurd hc (by decide)
  · exact absurd hc (by decide)

@[simp] theorem clean_nat (n : ℕ) : Clean (toString n) :=
  fun h => absurd (isDigit_of_mem_toString_nat h) (by decide)

theorem clean_lines {l : List String} (h : ∀ s ∈ l, Clean s) : Clean (lines l) := by
  unfold lines
  induction l with
  | nil => decide
  | cons s rest ih =>
    have hs := h s List.mem_cons_self
    have hrest := ih fun t ht => h t (List.mem_cons_of_mem s ht)
    cases rest with
    | nil => rwa [String.intercalate_singleton]
    | cons t rest =>
      rw [String.intercalate_cons_cons, clean_append, clean_append]
      exact ⟨⟨hs, by decide⟩, hrest⟩

section Orders
variable {py : Runtime}

def trader : Order → String
  | .sell _ _ _ t => t
  | .buy _ _ _ _ t => t

/-- A fingerprint can be stored if its trader's name can. -/
theorem clean_fingerprint {x : Order} (h : Clean (trader x)) : Clean x.fingerprint := by
  cases x with
  | sell p q c t =>
    have ht : Clean t := h
    simp +decide only [Order.fingerprint, clean_append, clean_toString, clean_int, ht, and_self]
  | buy p l u c t =>
    have ht : Clean t := h
    simp +decide only [Order.fingerprint, clean_append, clean_toString, clean_int, ht, and_self]

/-- The texts of floats are clean. -/
def PrintsClean (py : Runtime) : Prop := ∀ x, Clean (py.floatRepr x)

theorem clean_tenths (hprints : PrintsClean py) (x : ℚ) : Clean (Parsing.tenths double py x) := by
  unfold Parsing.tenths
  dsimp only
  split
  · simp +decide only [clean_append, clean_int, and_self]
  · exact hprints _

theorem clean_credits (hprints : PrintsClean py) {v : PyVal} {s : String}
    (h : credits py v = .ok s) : Clean s := by
  unfold credits at h
  split at h
  · next n _ =>
    unfold Parsing.formatCredits at h
    split at h
    · rw [← Except.ok.inj h]
      decide
    · rw [← Except.ok.inj h]
      decide
    · rw [← Except.ok.inj h]
      decide
    · next q _ =>
      have hsign : Clean (if q < 0 then "-" else "") := by split <;> decide
      have hunit : ∀ (d : ℚ) (u : String), Clean u → (do
          return (if q < 0 then "-" else "") ++
            Parsing.tenths double py (← Parsing.finite double d) ++ u : Except PyErr String) =
            .ok s → Clean s := by
        intro d u hu hs
        obtain ⟨x, _, hs⟩ := except_bind_eq_ok.mp hs
        rw [← Except.ok.inj hs, clean_append, clean_append]
        exact ⟨⟨hsign, clean_tenths hprints x⟩, hu⟩
      dsimp only at h
      split at h
      · exact hunit _ "b" (by decide) h
      · split at h
        · exact hunit _ "m" (by decide) h
        · split at h
          · exact hunit _ "k" (by decide) h
          · rw [← Except.ok.inj h, clean_append]
            refine ⟨hsign, ?_⟩
            unfold Parsing.grouped
            dsimp only
            split
            · decide
            · exact clean_int _
  · cases h

def IntFields (o : NewOrder) : Prop :=
  ∃ p l u : ℤ, o.price = .num (.int p) ∧ o.minQl = .num (.int l) ∧ o.maxQl = .num (.int u)

theorem newOrder_intFields (x : Order) : IntFields x.newOrder := by
  cases x with
  | sell p q c t => exact ⟨p, q, q, rfl, rfl, rfl⟩
  | buy p l u c t => exact ⟨p, l, u, rfl, rfl, rfl⟩

/-- The text of an alert about orders with integers. -/
theorem clean_formatAlert (hprints : PrintsClean py) {itemName : String} (hname : Clean itemName)
    {aoid : ℤ} {orders : Fingerprinted} (horders : ∀ o ∈ orders, IntFields o.2)
    {s : String} (h : formatAlert py itemName aoid orders = .ok s) : Clean s := by
  obtain ⟨rows, hrows, h⟩ := except_bind_eq_ok.mp h
  have hrow : ∀ r ∈ rows, Clean r := by
    intro r hr
    obtain ⟨o, ho, hline⟩ := (mapM_eq_ok hrows).1 r hr
    obtain ⟨p, l, u, hp, hl, hu⟩ := horders o ho
    obtain ⟨price, hprice, hline⟩ := except_bind_eq_ok.mp hline
    rw [← Except.ok.inj hline]
    have hcredits := clean_credits hprints hprice
    have hqls : ∀ m n : ℤ, Clean (if PyVal.eq (.num (.int m)) (.num (.int n)) then
        s!"QL{PyVal.format py (.num (.int m))}"
        else s!"QL{PyVal.format py (.num (.int m))}-{PyVal.format py (.num (.int n))}") := by
      intro m n
      split
      · simp +decide only [PyVal.format, clean_append, clean_toString, clean_int, and_self]
      · simp +decide only [PyVal.format, clean_append, clean_toString, clean_int, and_self]
    have hql := hqls l u
    have hside : Clean (sideName o.2.side) := by
      cases o.2.side with
      | sell => decide
      | buy => decide
    rw [hl, hu]
    simp +decide only [clean_append, clean_toString, hcredits, hside, true_and]
    exact hql
  rw [← Except.ok.inj h]
  apply clean_lines
  intro t ht
  rw [List.mem_append, List.mem_append] at ht
  rcases ht with (ht | ht) | ht
  · simp only [List.mem_cons, List.not_mem_nil, or_false] at ht
    rcases ht with rfl | rfl
    · simp +decide only [clean_append, clean_toString, clean_nat, hname, and_self]
    · decide
  · exact hrow t ht
  · simp only [List.mem_cons, List.not_mem_nil, or_false] at ht
    rcases ht with rfl | rfl
    · decide
    · simp +decide only [clean_append, clean_int, and_self]

end Orders

end AoMarket.StorableText
