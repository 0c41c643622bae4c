import AoMarket.Regex
import Mathlib.Logic.Relation

/-!
Every way to match, by the shape of the pattern: what was read and what is left to read.
A pattern matches a text if and only if there is some way to; which of them is the first
is a matter of `Re.First`.
-/

namespace AoMarket.Regex

namespace Re

section Inversion
variable {a b : Re} {p : Char → Bool} {l l' : List Char} {gs gs' : Groups}

theorem mem_eps {st st' : List Char × Groups} : st' ∈ results eps st ↔ st' = st :=
  List.mem_singleton

theorem mem_seq {st st' : List Char × Groups} :
    st' ∈ results (seq a b) st ↔ ∃ mid ∈ results a st, st' ∈ results b mid :=
  List.mem_flatMap

theorem mem_alt {st st' : List Char × Groups} :
    st' ∈ results (alt a b) st ↔ st' ∈ results a st ∨ st' ∈ results b st :=
  List.mem_append

theorem mem_opt {st st' : List Char × Groups} :
    st' ∈ results a.opt st ↔ st' ∈ results a st ∨ st' = st := by
  rw [opt, mem_alt, mem_eps]

theorem mem_char : (l', gs') ∈ results (char p) (l, gs) ↔
    ∃ c, p c = true ∧ l = c :: l' ∧ gs' = gs := by
  cases l with
  | nil => simp
  | cons d rest =>
    by_cases hd : p d = true
    · simp only [results_char_cons, if_pos hd, List.mem_singleton, Prod.mk.injEq, List.cons.injEq]
      constructor
      · intro h
        exact ⟨d, hd, ⟨rfl, h.1.symm⟩, h.2⟩
      · intro h
        obtain ⟨c, _, ⟨_, hrest⟩, hgs⟩ := h
        exact ⟨hrest.symm, hgs⟩
    · simp only [results_char_cons, if_neg hd, List.not_mem_nil, false_iff]
      intro h
      obtain ⟨c, hc, hcons, _⟩ := h
      obtain ⟨rfl, _⟩ := List.cons.inj hcons
      exact hd hc

theorem mem_dollar : (l', gs') ∈ results dollar (l, gs) ↔
    (l = [] ∨ l = ['\n']) ∧ l' = l ∧ gs' = gs := by
  rw [results_dollar]
  by_cases h : l = [] ∨ l = ['\n']
  · simp [h]
  · simp [h]

theorem mem_group {n : ℕ} : (l', gs') ∈ results (group n a) (l, gs) ↔
    ∃ read gs₁, l = read ++ l' ∧ (l', gs₁) ∈ results a (l, gs) ∧
      gs' = (n, String.ofList read) :: gs₁ := by
  have htake : ∀ read : List Char, (read ++ l').take ((read ++ l').length - l'.length) = read := by
    intro read
    rw [List.length_append, Nat.add_sub_cancel, List.take_left]
  rw [results_group, List.mem_map]
  constructor
  · intro h
    obtain ⟨⟨rest, gs₁⟩, hmem, heq⟩ := h
    obtain ⟨rfl, rfl⟩ := Prod.mk.inj heq
    obtain ⟨read, hread⟩ := suffix_of_mem hmem
    have hl : l = read ++ rest := hread.symm
    refine ⟨read, gs₁, hl, hmem, ?_⟩
    simp only [hl]
    rw [List.length_append, Nat.add_sub_cancel, List.take_left]
  · intro h
    obtain ⟨read, gs₁, rfl, hmem, rfl⟩ := h
    exact ⟨(l', gs₁), hmem, by rw [htake]⟩

/-- A turn of a repetition reads something. -/
def Turn (a : Re) (st st' : List Char × Groups) : Prop :=
  st' ∈ results a st ∧ st'.1.length < st.1.length

/-- Repetition is one turn after another. -/
theorem mem_star {a : Re} {st st' : List Char × Groups} :
    st' ∈ results (star a) st ↔ Relation.ReflTransGen (Turn a) st st' := by
  constructor
  · have hturns : ∀ turns (st : List Char × Groups), st' ∈ repeated (results a) turns st →
        Relation.ReflTransGen (Turn a) st st' := by
      intro turns
      induction turns with
      | zero =>
        intro st h
        rw [List.mem_singleton.mp h]
      | succ turns ih =>
        intro st h
        rcases List.mem_append.mp h with h | h
        · obtain ⟨mid, hmid, hrest⟩ := List.mem_flatMap.mp h
          obtain ⟨hread, hshort⟩ := List.mem_filter.mp hmid
          exact .head ⟨hread, by simpa using hshort⟩ (ih mid hrest)
        · rw [List.mem_singleton.mp h]
    exact fun h => hturns _ st h
  · intro h
    have hturns : ∀ turns, st.1.length ≤ turns → st' ∈ repeated (results a) turns st := by
      induction h using Relation.ReflTransGen.head_induction_on with
      | refl =>
        intro turns _
        cases turns with
        | zero => exact List.mem_singleton_self st'
        | succ turns => exact List.mem_append_right _ (List.mem_singleton_self st')
      | @head st mid hturn _ ih =>
        intro turns hlength
        have hshort := hturn.2
        cases turns with
        | zero => omega
        | succ turns =>
          apply List.mem_append_left
          refine List.mem_flatMap.mpr ⟨mid, List.mem_filter.mpr ⟨hturn.1, ?_⟩, ih turns ?_⟩
          · simpa using hshort
          · omega
    exact hturns _ (Nat.le_refl _)

/-- A repeated character can be read any number of times. -/
theorem mem_star_char : (l', gs') ∈ results (star (char p)) (l, gs) ↔
    ∃ run, (∀ c ∈ run, p c = true) ∧ l = run ++ l' ∧ gs' = gs := by
  rw [mem_star]
  constructor
  · have hturns : ∀ {st st' : List Char × Groups}, Relation.ReflTransGen (Turn (char p)) st st' →
        ∃ run, (∀ c ∈ run, p c = true) ∧ st.1 = run ++ st'.1 ∧ st'.2 = st.2 := by
      intro st st' h
      induction h using Relation.ReflTransGen.head_induction_on with
      | refl => exact ⟨[], by simp, rfl, rfl⟩
      | head hturn _ ih =>
        obtain ⟨run, hrun, hl, hgs⟩ := ih
        obtain ⟨c, hc, hread, hgs'⟩ := mem_char.mp hturn.1
        refine ⟨c :: run, List.forall_mem_cons.mpr ⟨hc, hrun⟩, ?_, hgs.trans hgs'⟩
        rw [hread, hl, List.cons_append]
    exact fun h => hturns h
  · intro h
    obtain ⟨run, hrun, rfl, rfl⟩ := h
    induction run with
    | nil => exact .refl
    | cons c run ih =>
      obtain ⟨hc, hrun⟩ := List.forall_mem_cons.mp hrun
      refine .head ⟨mem_char.mpr ⟨c, hc, rfl, rfl⟩, ?_⟩ (ih hrun)
      exact Nat.lt_succ_self (run ++ l').length

theorem mem_plus_char : (l', gs') ∈ results (Re.plus (char p)) (l, gs) ↔
    ∃ run, run ≠ [] ∧ (∀ c ∈ run, p c = true) ∧ l = run ++ l' ∧ gs' = gs := by
  rw [Re.plus, mem_seq]
  constructor
  · intro h
    obtain ⟨⟨mid, gs₁⟩, hmid, hrest⟩ := h
    obtain ⟨c, hc, rfl, rfl⟩ := mem_char.mp hmid
    obtain ⟨run, hrun, rfl, hgs⟩ := mem_star_char.mp hrest
    refine ⟨c :: run, by simp, fun d hd => ?_, rfl, hgs⟩
    rcases List.mem_cons.mp hd with rfl | hd
    · exact hc
    · exact hrun d hd
  · intro h
    obtain ⟨run, hne, hrun, rfl, rfl⟩ := h
    cases run with
    | nil => exact absurd rfl hne
    | cons c run =>
      refine ⟨(run ++ l', gs'), mem_char.mpr ⟨c, hrun c List.mem_cons_self, rfl, rfl⟩, ?_⟩
      exact mem_star_char.mpr ⟨run, fun d hd => hrun d (List.mem_cons_of_mem c hd), rfl, rfl⟩

theorem mem_all_cons {r r' : Re} {rs : List Re} {st st' : List Char × Groups} :
    st' ∈ results (all (r :: r' :: rs)) st ↔
      ∃ mid ∈ results r st, st' ∈ results (all (r' :: rs)) mid := mem_seq

end Inversion

/-! Whether a pattern matches -/

theorem matchStart_mem {r : Re} {s : String} {gs : Groups} (h : r.matchStart s = some gs) :
    ∃ rest, (rest, gs) ∈ results r (s.toList, []) := by
  obtain ⟨st, hst, rfl⟩ := Option.map_eq_some_iff.mp h
  exact ⟨st.1, List.mem_of_head? hst⟩

theorem matchStart_eq_none {r : Re} {s : String} :
    r.matchStart s = none ↔ ∀ st, st ∉ results r (s.toList, []) := by
  rw [Re.matchStart, Option.map_eq_none_iff, List.head?_eq_none_iff,
    List.eq_nil_iff_forall_not_mem]

end Re

/-- A literal text is read letter by letter. -/
theorem mem_word {s : String} {l l' : List Char} {gs gs' : Groups} :
    (l', gs') ∈ Re.results (word s) (l, gs) ↔
      ∃ run, run.map foldLetter = s.toList ∧ l = run ++ l' ∧ gs' = gs := by
  unfold word
  generalize s.toList = letters
  induction letters generalizing l with
  | nil =>
    have heps : Re.all (([] : List Char).map fun d => Re.char fun c => foldLetter c == d) = .eps := rfl
    rw [heps, Re.mem_eps, Prod.mk.injEq]
    constructor
    · intro h
      exact ⟨[], rfl, h.1.symm, h.2⟩
    · intro h
      obtain ⟨run, hrun, rfl, hgs⟩ := h
      rw [List.map_eq_nil_iff.mp hrun]
      exact ⟨rfl, hgs⟩
  | cons d ds ih =>
    have hsplit : (l', gs') ∈ Re.results
        (Re.all ((d :: ds).map fun d => Re.char fun c => foldLetter c == d)) (l, gs) ↔
        ∃ c rest, foldLetter c = d ∧ l = c :: rest ∧ (l', gs') ∈ Re.results
          (Re.all (ds.map fun d => Re.char fun c => foldLetter c == d)) (rest, gs) := by
      have hchar : ∀ {rest gs₁}, (rest, gs₁) ∈ Re.results (.char fun c => foldLetter c == d) (l, gs) ↔
          ∃ c, foldLetter c = d ∧ l = c :: rest ∧ gs₁ = gs := by
        intro rest gs₁
        simp only [Re.mem_char, beq_iff_eq]
      cases ds with
      | nil =>
        have hlast : Re.all ([d].map fun d => Re.char fun c => foldLetter c == d) =
            .char fun c => foldLetter c == d := rfl
        have heps : Re.all (([] : List Char).map fun d => Re.char fun c => foldLetter c == d) =
            .eps := rfl
        rw [hlast, hchar, heps]
        constructor
        · intro h
          obtain ⟨c, hc, hl, hgs⟩ := h
          exact ⟨c, l', hc, hl, Re.mem_eps.mpr (by rw [hgs])⟩
        · intro h
          obtain ⟨c, rest, hc, hl, hrest⟩ := h
          obtain ⟨hrest, hgs⟩ := Prod.mk.inj (Re.mem_eps.mp hrest)
          exact ⟨c, hc, by rw [hl, hrest], hgs⟩
      | cons e es =>
        rw [List.map_cons, List.map_cons, Re.mem_all_cons]
        constructor
        · intro h
          obtain ⟨⟨rest, gs₁⟩, hmid, hrest⟩ := h
          obtain ⟨c, hc, hl, rfl⟩ := hchar.mp hmid
          exact ⟨c, rest, hc, hl, hrest⟩
        · intro h
          obtain ⟨c, rest, hc, hl, hrest⟩ := h
          exact ⟨(rest, gs), hchar.mpr ⟨c, hc, hl, rfl⟩, hrest⟩
    rw [hsplit]
    constructor
    · intro h
      obtain ⟨c, rest, hc, rfl, hrest⟩ := h
      obtain ⟨run, hrun, rfl, hgs⟩ := ih.mp hrest
      exact ⟨c :: run, by rw [List.map_cons, hc, hrun], rfl, hgs⟩
    · intro h
      obtain ⟨run, hrun, rfl, hgs⟩ := h
      cases run with
      | nil => cases hrun
      | cons c run =>
        obtain ⟨hc, hrun⟩ := List.cons.inj hrun
        exact ⟨c, run ++ l', hc, rfl, ih.mpr ⟨run, hrun, rfl, hgs⟩⟩

end AoMarket.Regex
