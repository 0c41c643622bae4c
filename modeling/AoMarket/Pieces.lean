import Mathlib.Data.List.TakeWhile

/-!
The pieces of a list between separators, without the empty ones: what is left of a
text when it is split at whitespace, or at anything that is no digit.
-/

namespace AoMarket.Pieces

variable {α : Type} {p q : α → Bool}

def pieces (p : α → Bool) (l : List α) : List (List α) :=
  (l.splitOnP p).filter fun w => !w.isEmpty

theorem pieces_nil : pieces p [] = [] := rfl

theorem pieces_append_cons {sep : α} (hsep : p sep = true) (a b : List α) :
    pieces p (a ++ sep :: b) = pieces p a ++ pieces p b := by
  unfold pieces
  rw [List.splitOnP_append_cons a b hsep, List.filter_append]

theorem pieces_cons {sep : α} (hsep : p sep = true) (l : List α) :
    pieces p (sep :: l) = pieces p l := by
  have happend := pieces_append_cons hsep [] l
  rwa [List.nil_append, pieces_nil, List.nil_append] at happend

theorem pieces_of_run {run : List α} (hne : run ≠ []) (h : ∀ c ∈ run, p c = false) :
    pieces p run = [run] := by
  unfold pieces
  rw [List.splitOnP_eq_singleton h, List.filter_cons_of_pos]
  · rfl
  · simpa using hne

/-- Separators in front are skipped. -/
theorem pieces_skip {seps : List α} (h : ∀ c ∈ seps, p c = true) (l : List α) :
    pieces p (seps ++ l) = pieces p l := by
  induction seps with
  | nil => rfl
  | cons c rest ih =>
    rw [List.cons_append, pieces_cons (h c List.mem_cons_self)]
    exact ih fun d hd => h d (List.mem_cons_of_mem c hd)

theorem pieces_append_seps {seps : List α} (hne : seps ≠ []) (h : ∀ c ∈ seps, p c = true)
    (a b : List α) : pieces p (a ++ (seps ++ b)) = pieces p a ++ pieces p b := by
  cases seps with
  | nil => exact absurd rfl hne
  | cons c rest =>
    rw [List.cons_append, pieces_append_cons (h c List.mem_cons_self),
      pieces_skip fun d hd => h d (List.mem_cons_of_mem c hd)]

/-- Separators at the end are dropped. -/
theorem pieces_trailing {seps : List α} (h : ∀ c ∈ seps, p c = true) (a : List α) :
    pieces p (a ++ seps) = pieces p a := by
  by_cases hne : seps = []
  · rw [hne, List.append_nil]
  · have happend := pieces_append_seps hne h a []
    rwa [List.append_nil, pieces_nil, List.append_nil] at happend

/-- A run up to the next separators is the first piece. -/
theorem pieces_run_seps {run seps : List α} (hrun : run ≠ []) (h : ∀ c ∈ run, p c = false)
    (hseps : seps ≠ []) (hs : ∀ c ∈ seps, p c = true) (l : List α) :
    pieces p (run ++ (seps ++ l)) = run :: pieces p l := by
  rw [pieces_append_seps hseps hs, pieces_of_run hrun h]
  rfl

theorem mem_pieces {l w : List α} (h : w ∈ pieces p l) :
    w ≠ [] ∧ ∀ c ∈ w, p c = false ∧ c ∈ l := by
  have hsplit : ∀ (l : List α), ∀ w ∈ l.splitOnP p, ∀ c ∈ w, p c = false ∧ c ∈ l := by
    intro l
    induction l with
    | nil =>
      intro w hw c hc
      rw [List.splitOnP_nil, List.mem_singleton] at hw
      rw [hw] at hc
      cases hc
    | cons d rest ih =>
      intro w hw c hc
      rw [List.splitOnP_cons_eq_if_modifyHead] at hw
      by_cases hd : p d = true
      · rw [if_pos hd] at hw
        rcases List.mem_cons.mp hw with rfl | hw
        · cases hc
        · exact ⟨(ih w hw c hc).1, List.mem_cons_of_mem d (ih w hw c hc).2⟩
      · rw [if_neg hd] at hw
        cases hrest : rest.splitOnP p with
        | nil => exact absurd hrest (List.splitOnP_ne_nil p rest)
        | cons first others =>
          rw [hrest, List.modifyHead_cons] at hw
          rcases List.mem_cons.mp hw with rfl | hw
          · rcases List.mem_cons.mp hc with rfl | hc
            · exact ⟨by simpa using hd, List.mem_cons_self⟩
            · have hfirst := ih first (hrest ▸ List.mem_cons_self) c hc
              exact ⟨hfirst.1, List.mem_cons_of_mem d hfirst.2⟩
          · have hother := ih w (hrest ▸ List.mem_cons_of_mem first hw) c hc
            exact ⟨hother.1, List.mem_cons_of_mem d hother.2⟩
  obtain ⟨hmem, hne⟩ := List.mem_filter.mp h
  exact ⟨by simpa using hne, hsplit l w hmem⟩

/-- Splitting at some of the separators first makes no difference. -/
theorem pieces_flatMap (h : ∀ c, q c = true → p c = true) (l : List α) :
    pieces p l = (pieces q l).flatMap (pieces p) := by
  have hlen : ∀ n (l : List α), l.length ≤ n → pieces p l = (pieces q l).flatMap (pieces p) := by
    intro n
    induction n with
    | zero =>
      intro l hl
      rw [List.length_eq_zero_iff.mp (by omega : l.length = 0)]
      rfl
    | succ n ih =>
      intro l hl
      have hsplit : l.takeWhile (fun c => !q c) ++ l.dropWhile (fun c => !q c) = l :=
        List.takeWhile_append_dropWhile
      have hrun : ∀ c ∈ l.takeWhile (fun c => !q c), q c = false := by
        intro c hc
        simpa using List.mem_takeWhile_imp hc
      generalize l.takeWhile (fun c => !q c) = run at hsplit hrun
      have hone : pieces p run = (pieces q run).flatMap (pieces p) := by
        by_cases hne : run = []
        · rw [hne]
          rfl
        · rw [pieces_of_run hne hrun, List.flatMap_cons, List.flatMap_nil, List.append_nil]
      cases hrest : l.dropWhile fun c => !q c with
      | nil =>
        rw [hrest, List.append_nil] at hsplit
        rwa [← hsplit]
      | cons c rest =>
        have hc : q c = true := by
          have hhead := List.head?_dropWhile_not (fun c => !q c) l
          rw [hrest] at hhead
          simpa using hhead
        have hshort : rest.length ≤ n := by
          have hlength := congrArg List.length hsplit
          rw [hrest, List.length_append, List.length_cons] at hlength
          omega
        rw [← hsplit, hrest, pieces_append_cons (h c hc), pieces_append_cons hc,
          List.flatMap_append, ← hone, ih rest hshort]
  exact hlen l.length l (Nat.le_refl _)

end AoMarket.Pieces
