import AoMarket.Polling
import AoMarket.Rounding

/-!
What is computed from the numbers of a well-typed book: the extremes are among its
prices, every comparison is one of integers, and prices that fit the columns have an
average and a text.
-/

namespace AoMarket.BookNumbers

open OrderBook PyNumber PyText Environment MarketRepo Rendering Polling

def IntWith (P : ℤ → Prop) (v : PyVal) : Prop := ∃ n, v = .num (.int n) ∧ P n

section Extremes
variable {P : ℤ → Prop} {py : Runtime}

/-- The minimum of integers is one of them, and no comparison raises. -/
theorem minFrom_int {best : PyVal} {l : List PyVal} (hbest : IntWith P best)
    (h : ∀ v ∈ l, IntWith P v) : ∃ v, PyVal.minFrom py best l = some v ∧ IntWith P v := by
  induction l generalizing best with
  | nil => exact ⟨best, rfl, hbest⟩
  | cons v rest ih =>
    have hv := h v List.mem_cons_self
    obtain ⟨m, rfl, hm⟩ := hbest
    obtain ⟨n, rfl, hn⟩ := hv
    have hrest : ∀ v ∈ rest, IntWith P v := fun v hv => h v (List.mem_cons_of_mem _ hv)
    by_cases hless : n < m
    · obtain ⟨v, hv, hP⟩ := ih ⟨n, rfl, hn⟩ hrest
      exact ⟨v, by simpa [PyVal.minFrom, PyVal.lt, PyVal.num?, hless] using hv, hP⟩
    · obtain ⟨v, hv, hP⟩ := ih ⟨m, rfl, hm⟩ hrest
      exact ⟨v, by simpa [PyVal.minFrom, PyVal.lt, PyVal.num?, hless] using hv, hP⟩

theorem maxFrom_int {best : PyVal} {l : List PyVal} (hbest : IntWith P best)
    (h : ∀ v ∈ l, IntWith P v) : ∃ v, PyVal.maxFrom py best l = some v ∧ IntWith P v := by
  induction l generalizing best with
  | nil => exact ⟨best, rfl, hbest⟩
  | cons v rest ih =>
    have hv := h v List.mem_cons_self
    obtain ⟨m, rfl, hm⟩ := hbest
    obtain ⟨n, rfl, hn⟩ := hv
    have hrest : ∀ v ∈ rest, IntWith P v := fun v hv => h v (List.mem_cons_of_mem _ hv)
    by_cases hmore : m < n
    · obtain ⟨v, hv, hP⟩ := ih ⟨n, rfl, hn⟩ hrest
      exact ⟨v, by simpa [PyVal.maxFrom, PyVal.lt, PyVal.num?, hmore] using hv, hP⟩
    · obtain ⟨v, hv, hP⟩ := ih ⟨m, rfl, hm⟩ hrest
      exact ⟨v, by simpa [PyVal.maxFrom, PyVal.lt, PyVal.num?, hmore] using hv, hP⟩

theorem minPrice_int {l : List PyVal} (hzero : P 0) (h : ∀ v ∈ l, IntWith P v) :
    ∃ v, minPrice py l = some v ∧ IntWith P v := by
  cases l with
  | nil => exact ⟨_, rfl, 0, rfl, hzero⟩
  | cons v rest =>
    exact minFrom_int (h v List.mem_cons_self) fun v' hv' => h v' (List.mem_cons_of_mem v hv')

theorem maxPrice_int {l : List PyVal} (hzero : P 0) (h : ∀ v ∈ l, IntWith P v) :
    ∃ v, maxPrice py l = some v ∧ IntWith P v := by
  cases l with
  | nil => exact ⟨_, rfl, 0, rfl, hzero⟩
  | cons v rest =>
    exact maxFrom_int (h v List.mem_cons_self) fun v' hv' => h v' (List.mem_cons_of_mem v hv')

end Extremes

theorem filterChecked_total {α : Type} {p : α → Option Bool} {l : List α}
    (h : ∀ a ∈ l, ∃ b, p a = some b) : ∃ kept, filterChecked p l = some kept ∧ kept ⊆ l := by
  induction l with
  | nil => exact ⟨[], rfl, List.Subset.refl _⟩
  | cons a rest ih =>
    obtain ⟨b, hb⟩ := h a List.mem_cons_self
    obtain ⟨kept, hkept, hsub⟩ := ih fun a' ha' => h a' (List.mem_cons_of_mem a ha')
    refine ⟨if b then a :: kept else kept, by simp [filterChecked, hb, hkept], ?_⟩
    cases b with
    | true => exact List.cons_subset_cons a hsub
    | false => exact List.subset_cons_of_subset a hsub

/-! Averages -/

section Averages
variable {P : ℤ → Prop}

/-- A list of integer prices is one of integers, on which sum() is exact. -/
theorem ints_of {prices : List PyVal} (h : ∀ v ∈ prices, IntWith P v) :
    ∃ ns : List ℤ, (∀ n ∈ ns, P n) ∧ prices = PySum.ints ns := by
  induction prices with
  | nil => exact ⟨[], by simp, rfl⟩
  | cons v rest ih =>
    obtain ⟨n, rfl, hn⟩ := h v List.mem_cons_self
    obtain ⟨ns, hns, rfl⟩ := ih fun v hv => h v (List.mem_cons_of_mem _ hv)
    refine ⟨n :: ns, ?_, rfl⟩
    intro m hm
    rcases List.mem_cons.mp hm with rfl | hm
    · exact hn
    · exact hns m hm

/-- The exact quotient of the exact sum, rounded once. -/
theorem average_ints (py : Runtime) {ns : List ℤ} (h : ns ≠ []) :
    average py (PySum.ints ns) =
      match double ((ns.sum : ℚ) / ns.length) with
      | some q => .ok (.float (.fin q))
      | none => .error .overflow := by
  have hsome : PySum.ints ns ≠ [] := by simpa [PySum.ints] using h
  have hlength : (PySum.ints ns).length = ns.length := by simp [PySum.ints]
  unfold average
  rw [if_neg hsome, PySum.sum_ints, ok_bind, hlength, PyNum.divLength]
  cases double ((ns.sum : ℚ) / ns.length) with
  | none => rfl
  | some q => rfl

/-- An average of integers can only be too large for a float. -/
theorem average_int {py : Runtime} {prices : List PyVal} (h : ∀ v ∈ prices, IntWith P v)
    {e : PyErr} (he : average py prices = .error e) : e = .overflow := by
  obtain ⟨ns, _, rfl⟩ := ints_of h
  by_cases hnil : ns = []
  · subst hnil
    cases he
  · rw [average_ints py hnil] at he
    split at he
    · cases he
    · cases he
      rfl

/-- A sum is bounded by the number of its terms times their bound. -/
theorem abs_sum_le {ns : List ℤ} {b : ℚ} (h : ∀ n ∈ ns, |(n : ℚ)| ≤ b) :
    |(ns.sum : ℚ)| ≤ ns.length * b := by
  induction ns with
  | nil => simp
  | cons n rest ih =>
    have hrest := ih fun m hm => h m (List.mem_cons_of_mem n hm)
    have hn := h n List.mem_cons_self
    calc |((n :: rest).sum : ℚ)| = |(n : ℚ) + rest.sum| := by push_cast [List.sum_cons]; rfl
      _ ≤ |(n : ℚ)| + |(rest.sum : ℚ)| := abs_add_le _ _
      _ ≤ b + rest.length * b := add_le_add hn hrest
      _ = (n :: rest).length * b := by push_cast [List.length_cons]; ring

/-- The average of small integers is a finite float. -/
theorem average_small (py : Runtime) {prices : List PyVal}
    (h : ∀ v ∈ prices, IntWith (fun n => |(n : ℚ)| ≤ 2 ^ 100) v) :
    ∃ m, average py prices = .ok m ∧ ∀ env : Env, numericColumn env m = .ok () := by
  obtain ⟨ns, hns, rfl⟩ := ints_of h
  by_cases hnil : ns = []
  · subst hnil
    exact ⟨.int 0, rfl, fun _ => rfl⟩
  · have hlength : (0 : ℚ) < ns.length := by exact_mod_cast List.length_pos_iff.mpr hnil
    have hquotient : |(ns.sum : ℚ) / ns.length| ≤ 2 ^ 100 := by
      rw [abs_div, abs_of_pos hlength, div_le_iff₀ hlength, mul_comm]
      exact abs_sum_le hns
    obtain ⟨q, hq⟩ := Rounding.double_isSome hquotient
    refine ⟨.float (.fin q), ?_, fun env => if_pos (env.numeric_fin q)⟩
    rw [average_ints py hnil, hq]

end Averages

/-! The numbers of a book -/

def price : Order → ℤ
  | .sell p _ _ _ => p
  | .buy p _ _ _ _ => p

section Books
variable {P : ℤ → Prop} {py : Runtime} {book : Orders}

/-- The prices a well-typed book gives to the columns are integers. -/
theorem prices_int (h : book.WellTyped) (hP : ∀ x ∈ book.orders, P (price x)) :
    (∀ o ∈ book.sellOrders, IntWith P o.price) ∧ ∀ o ∈ book.buyOrders, IntWith P o.price := by
  constructor
  · intro o ho
    obtain ⟨x, hx⟩ := Option.isSome_iff_exists.mp (h.1 o ho)
    have hprice := hP x (List.mem_append_left _ (List.mem_filterMap.mpr ⟨o, ho, hx⟩))
    obtain ⟨p, _, _, _, rfl, rfl⟩ := SellOrder.order?_eq_some hx
    exact ⟨p, rfl, hprice⟩
  · intro o ho
    obtain ⟨x, hx⟩ := Option.isSome_iff_exists.mp (h.2 o ho)
    have hprice := hP x (List.mem_append_right _ (List.mem_filterMap.mpr ⟨o, ho, hx⟩))
    obtain ⟨p, _, _, _, _, rfl, rfl⟩ := BuyOrder.order?_eq_some hx
    exact ⟨p, rfl, hprice⟩

theorem anchors_int (h : book.WellTyped) (ql : ℤ) :
    ∀ o ∈ book.buyOrders, ∃ b, anchors py (.num (.int ql)) o = some b := by
  intro o ho
  obtain ⟨x, hx⟩ := Option.isSome_iff_exists.mp (h.2 o ho)
  obtain ⟨_, minQl, maxQl, _, _, _, rfl⟩ := BuyOrder.order?_eq_some hx
  by_cases hmin : minQl ≤ ql
  · exact ⟨decide (ql ≤ maxQl), by simp [anchors, le, PyVal.num?, hmin]⟩
  · exact ⟨false, by simp [anchors, le, PyVal.num?, hmin]⟩

/-- What is left to raise in a summary are the two averages. -/
theorem summarize_int (h : book.WellTyped) (hzero : P 0) (hP : ∀ x ∈ book.orders, P (price x))
    (ql : ℤ) : ∃ minSell maxBuy sells buys sellCount buyCount, IntWith P minSell ∧
      IntWith P maxBuy ∧ (∀ v ∈ sells, IntWith P v) ∧ (∀ v ∈ buys, IntWith P v) ∧
      summarize py book ql = (do
        let avgSell ← average py sells
        let avgBuy ← average py buys
        return ⟨minSell, maxBuy, avgSell, avgBuy, sellCount, buyCount⟩) := by
  obtain ⟨hsells, hbuys⟩ := prices_int h hP
  obtain ⟨minSell, hminSell, hmin⟩ : ∃ v, minPrice py _ = some v ∧ IntWith P v :=
    minPrice_int hzero (List.forall_mem_map.mpr hsells)
  obtain ⟨maxBuy, hmaxBuy, hmax⟩ : ∃ v, maxPrice py _ = some v ∧ IntWith P v :=
    maxPrice_int hzero (List.forall_mem_map.mpr hbuys)
  obtain ⟨kept, hkept, hsub⟩ := filterChecked_total (@anchors_int py book h ql)
  let sells := book.sellOrders.filter fun o => o.ql.eq (.num (.int ql))
  refine ⟨minSell, maxBuy, sells.map SellOrder.price, kept.map BuyOrder.price, sells.length,
    kept.length, hmin, hmax, ?_, ?_, ?_⟩
  · exact List.forall_mem_map.mpr fun o ho => hsells o (List.mem_filter.mp ho).1
  · exact List.forall_mem_map.mpr fun o ho => hbuys o (hsub ho)
  · unfold summarize
    simp only [hminSell, hmaxBuy, hkept, orTypeError, ok_bind]
    rfl

/-- A number of a 64-bit column. -/
def Fits (n : ℤ) : Prop := -2 ^ 63 ≤ n ∧ n < 2 ^ 63

instance (n : ℤ) : Decidable (Fits n) := by
  unfold Fits
  infer_instance

theorem Fits.abs_le {n : ℤ} (h : Fits n) : |(n : ℚ)| ≤ 2 ^ 63 := by
  have habs : |n| ≤ 2 ^ 63 := abs_le'.mpr ⟨h.2.le, by linarith [h.1]⟩
  exact_mod_cast habs

theorem int8_ok {n : ℤ} (h : Fits n) : int8 n = .ok () := if_pos h

theorem int8_error {n : ℤ} (h : ¬ Fits n) : int8 n = .error .database := if_neg h

/-- A number of a 32-bit column. -/
def Fits4 (n : ℤ) : Prop := -2 ^ 31 ≤ n ∧ n < 2 ^ 31

instance (n : ℤ) : Decidable (Fits4 n) := by
  unfold Fits4
  infer_instance

theorem int4_ok {n : ℤ} (h : Fits4 n) : int4 n = .ok () := if_pos h

theorem int4_error {n : ℤ} (h : ¬ Fits4 n) : int4 n = .error .database := if_neg h

/-- A book whose prices fit has a summary, and its extremes fit. -/
theorem summarize_fits (h : book.WellTyped) (hP : ∀ x ∈ book.orders, Fits (price x)) (ql : ℤ) :
    ∃ s, summarize py book ql = .ok s ∧ IntWith Fits s.minSell ∧ IntWith Fits s.maxBuy ∧
      ∀ env : Env, numericColumn env s.avgSell = .ok () ∧ numericColumn env s.avgBuy = .ok () := by
  obtain ⟨minSell, maxBuy, sells, buys, sellCount, buyCount, hmin, hmax, hsells, hbuys, heq⟩ :=
    @summarize_int Fits py book h (by norm_num [Fits]) hP ql
  have hsmall : ∀ l : List PyVal, (∀ v ∈ l, IntWith Fits v) →
      ∃ m, average py l = .ok m ∧ ∀ env : Env, numericColumn env m = .ok () := by
    intro l hl
    apply average_small py
    intro v hv
    obtain ⟨n, rfl, hn⟩ := hl v hv
    exact ⟨n, rfl, hn.abs_le.trans (by norm_num)⟩
  obtain ⟨avgSell, havgSell, hsell⟩ := hsmall sells hsells
  obtain ⟨avgBuy, havgBuy, hbuy⟩ := hsmall buys hbuys
  rw [havgSell, ok_bind, havgBuy, ok_bind] at heq
  exact ⟨_, heq, hmin, hmax, fun env => ⟨hsell env, hbuy env⟩⟩

theorem bigintColumn_fits {env : Env} {v : PyVal} (h : IntWith Fits v) :
    (bigintColumn env v).isOk = true := by
  obtain ⟨n, rfl, hn⟩ := h
  have hbig : env.bigint (.int n) = some n := by
    rw [env.bigint_int]
    exact if_pos hn
  simp [bigintColumn, PyVal.num?, hbig, Except.isOk, Except.toBool]

/-- A price of a 64-bit column has a text. -/
theorem credits_fits {n : ℤ} (h : Fits n) : ∃ s, credits py (.num (.int n)) = .ok s := by
  have hfinite : ∀ d : ℚ, 1 ≤ d → ∃ x, Parsing.finite double (|(n : ℚ)| / d) = .ok x := by
    intro d hd
    have hbound : |(|(n : ℚ)| / d)| ≤ 2 ^ 100 := by
      rw [abs_of_nonneg (div_nonneg (abs_nonneg _) (by linarith)), div_le_iff₀ (by linarith)]
      have hn := h.abs_le
      have hscaled : (2 : ℚ) ^ 63 ≤ 2 ^ 100 * d := by linarith
      exact hn.trans hscaled
    obtain ⟨x, hx⟩ := Rounding.double_isSome hbound
    exact ⟨x, by rw [Parsing.finite, hx]⟩
  obtain ⟨b, hb⟩ := hfinite 1000000000 (by norm_num)
  obtain ⟨m, hm⟩ := hfinite 1000000 (by norm_num)
  obtain ⟨k, hk⟩ := hfinite 1000 (by norm_num)
  simp only [credits, PyVal.num?, Parsing.formatCredits, PyNum.value, hb, hm, hk, ok_bind]
  split
  · exact ⟨_, rfl⟩
  · split
    · exact ⟨_, rfl⟩
    · split
      · exact ⟨_, rfl⟩
      · exact ⟨_, rfl⟩

end Books

end AoMarket.BookNumbers
