import Mathlib.Data.List.Perm.Basic
import Mathlib.Data.List.Nodup

/-!
Tables whose first match decides. Where no two special entries match, their order
says nothing, and the other entries may stand anywhere in the table as long as
they hide no special entry that matches too.
-/

namespace AoMarket.FirstMatch

variable {α β : Type} {f : α → Option β} {special : α → Bool} {table table' : List α}

/-- Two entries that match are the same. -/
def Exclusive (f : α → Option β) (table : List α) : Prop :=
  ∀ a ∈ table, ∀ b ∈ table, f a ≠ none → f b ≠ none → a = b

/-- No other entry that matches precedes a special one that matches. -/
def Unshadowed (special : α → Bool) (f : α → Option β) (table : List α) : Prop :=
  table.Pairwise fun c p => special c = false → special p = true → f p ≠ none → f c = none

theorem Exclusive.perm (h : Exclusive f table) (hperm : table.Perm table') :
    Exclusive f table' := by
  intro a ha b hb
  exact h a (hperm.mem_iff.mpr ha) b (hperm.mem_iff.mpr hb)

/-- The one entry that matches is found wherever it stands. -/
theorem Exclusive.findSome? (h : Exclusive f table) {a : α} (ha : a ∈ table) (hf : f a ≠ none) :
    table.findSome? f = f a := by
  cases hfound : table.findSome? f with
  | none =>
    rw [List.findSome?_eq_none_iff] at hfound
    exact absurd (hfound a ha) hf
  | some b =>
    obtain ⟨a', ha', hb⟩ := List.exists_of_findSome?_eq_some hfound
    have hsome : f a' ≠ none := by
      rw [hb]
      exact Option.some_ne_none b
    rw [← h a' ha' a ha hsome hf, hb]

/-- When all entries that match are the same one, the order of the table does not matter. -/
theorem Exclusive.findSome?_perm (h : Exclusive f table) (hperm : table.Perm table') :
    table.findSome? f = table'.findSome? f := by
  by_cases hnone : ∀ a ∈ table, f a = none
  · have hnone' : ∀ a ∈ table', f a = none := fun a ha => hnone a (hperm.mem_iff.mpr ha)
    rw [List.findSome?_eq_none_iff.mpr hnone, List.findSome?_eq_none_iff.mpr hnone']
  · push Not at hnone
    obtain ⟨a, ha, hf⟩ := hnone
    rw [h.findSome? ha hf, (h.perm hperm).findSome? (hperm.mem_iff.mp ha) hf]

/-- The special entries may as well come first. -/
theorem Unshadowed.findSome? (h : Unshadowed special f table) :
    table.findSome? f =
      (table.filter special ++ table.filter fun a => !special a).findSome? f := by
  induction table with
  | nil => rfl
  | cons a rest ih =>
    obtain ⟨ha, hrest⟩ := List.pairwise_cons.mp h
    have ih := ih hrest
    rw [List.findSome?_append] at ih ⊢
    by_cases hspecial : special a = true
    · rw [List.filter_cons_of_pos hspecial, List.filter_cons_of_neg (by simp [hspecial]),
        List.findSome?_cons, List.findSome?_cons, ih]
      cases f a with
      | none => rfl
      | some b => rfl
    · have hother : special a = false := eq_false_of_ne_true hspecial
      rw [List.filter_cons_of_neg hspecial, List.filter_cons_of_pos (by simp [hother]),
        List.findSome?_cons, List.findSome?_cons, ih]
      cases hf : f a with
      | none => rfl
      | some b =>
        -- an entry that matches has no special one behind it that does
        have hnone : (rest.filter special).findSome? f = none := by
          rw [List.findSome?_eq_none_iff]
          intro p hp
          obtain ⟨hmem, hp⟩ := List.mem_filter.mp hp
          by_contra hmatch
          have hhidden := ha p hmem hother hp hmatch
          rw [hf] at hhidden
          cases hhidden
        rw [hnone]
        rfl

/-- What is found tells the entries apart, so nothing before the entry found matches. -/
theorem none_before (hnodup : table.Nodup)
    (hinj : ∀ a ∈ table, ∀ b ∈ table, f a = f b → f b ≠ none → a = b)
    {c p : α} (hcp : [c, p].Sublist table) (hfound : table.findSome? f = f p)
    (hp : f p ≠ none) : f c = none := by
  obtain ⟨before, after, rfl, hc, hafter⟩ := List.cons_sublist_iff.mp hcp
  have hmem : p ∈ after := List.singleton_sublist.mp hafter
  by_contra hmatch
  rw [List.findSome?_append] at hfound
  cases hbefore : before.findSome? f with
  | none =>
    rw [List.findSome?_eq_none_iff] at hbefore
    exact hmatch (hbefore c hc)
  | some b =>
    obtain ⟨a, ha, hb⟩ := List.exists_of_findSome?_eq_some hbefore
    rw [hbefore, Option.some_or, ← hb] at hfound
    have hsame := hinj a (List.mem_append_left after ha) p (List.mem_append_right before hmem)
      hfound hp
    rw [hsame] at ha
    exact (List.nodup_append.mp hnodup).2.2 p ha p hmem rfl

end AoMarket.FirstMatch
