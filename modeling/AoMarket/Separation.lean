import Mathlib.Data.List.Induction

/-!
Histories in which every two marks have a gap between them. `Pending` says that a
mark has had no gap since; a history that grows event by event stays separated as
long as no mark comes while one is pending.
-/

namespace AoMarket.Separation

variable {α : Type} {M G : α → Prop} {l note : List α} {e : α}

def Pending (M G : α → Prop) (l : List α) : Prop :=
  ∃ l₁ x l₂, l = l₁ ++ x :: l₂ ∧ M x ∧ ∀ y ∈ l₂, ¬ G y

/-- Between any two marks of the history there is a gap. -/
def Separated (M G : α → Prop) (l : List α) : Prop :=
  ∀ l₁ x l₂ y l₃, l = l₁ ++ x :: (l₂ ++ y :: l₃) → M x → M y → ∃ z ∈ l₂, G z

theorem pending_nil : ¬ Pending M G [] := by
  rintro ⟨l₁, x, l₂, h, -⟩
  simp at h

theorem separated_nil : Separated M G [] := by
  intro l₁ x l₂ y l₃ h
  simp at h

/-- A list with an event added, split around an element. -/
theorem concat_eq_append_cons {l₁ l₂ : List α} {x : α} (h : l ++ [e] = l₁ ++ x :: l₂) :
    (l₂ = [] ∧ x = e ∧ l = l₁) ∨ ∃ l₂', l₂ = l₂' ++ [e] ∧ l = l₁ ++ x :: l₂' := by
  rcases List.eq_nil_or_concat l₂ with rfl | ⟨l₂', y, rfl⟩
  · obtain ⟨hl, hx⟩ := List.append_inj' h rfl
    exact Or.inl ⟨rfl, (List.cons.inj hx).1.symm, hl⟩
  · have h' : l ++ [e] = (l₁ ++ x :: l₂') ++ [y] := by simpa using h
    obtain ⟨hl, hy⟩ := List.append_inj' h' rfl
    exact Or.inr ⟨l₂', by rw [(List.cons.inj hy).1, List.concat_eq_append], hl⟩

theorem pending_concat : Pending M G (l ++ [e]) ↔ M e ∨ (Pending M G l ∧ ¬ G e) := by
  constructor
  · rintro ⟨l₁, x, l₂, h, hx, hgap⟩
    rcases concat_eq_append_cons h with ⟨rfl, rfl, rfl⟩ | ⟨l₂', rfl, rfl⟩
    · exact Or.inl hx
    · exact Or.inr ⟨⟨l₁, x, l₂', rfl, hx, fun y hy => hgap y (List.mem_append_left _ hy)⟩,
        hgap e (by simp)⟩
  · rintro (he | ⟨⟨l₁, x, l₂, rfl, hx, hgap⟩, he⟩)
    · exact ⟨l, e, [], rfl, he, by simp⟩
    · refine ⟨l₁, x, l₂ ++ [e], by simp, hx, ?_⟩
      intro y hy
      rcases List.mem_append.mp hy with hy | hy
      · exact hgap y hy
      · rw [List.mem_singleton.mp hy]
        exact he

theorem separated_concat :
    Separated M G (l ++ [e]) ↔ Separated M G l ∧ (M e → ¬ Pending M G l) := by
  constructor
  · intro h
    constructor
    · intro l₁ x l₂ y l₃ hl
      exact h l₁ x l₂ y (l₃ ++ [e]) (by simp [hl])
    · rintro he ⟨l₁, x, l₂, rfl, hx, hgap⟩
      obtain ⟨z, hz, hG⟩ := h l₁ x l₂ e [] (by simp) hx he
      exact hgap z hz hG
  · rintro ⟨hsep, hnew⟩ l₁ x l₂ y l₃ h hx hy
    have h' : l ++ [e] = (l₁ ++ x :: l₂) ++ y :: l₃ := by simpa using h
    rcases concat_eq_append_cons h' with ⟨rfl, rfl, rfl⟩ | ⟨l₃', rfl, rfl⟩
    · by_contra hnone
      exact hnew hy ⟨l₁, x, l₂, rfl, hx, fun z hz hG => hnone ⟨z, hz, hG⟩⟩
    · exact hsep l₁ x l₂ y l₃' (by simp) hx hy

/-- Events that are neither marks nor gaps change nothing. -/
theorem pending_append (h : ∀ y ∈ note, ¬ M y ∧ ¬ G y) :
    Pending M G (l ++ note) ↔ Pending M G l := by
  induction note using List.reverseRecOn with
  | nil => simp
  | append_singleton note y ih =>
    have hy := h y (by simp)
    rw [← List.append_assoc, pending_concat, ih fun z hz => h z (List.mem_append_left _ hz)]
    exact ⟨fun hor => (hor.resolve_left hy.1).1, fun hp => Or.inr ⟨hp, hy.2⟩⟩

/-- Events that are no marks leave a history separated. -/
theorem separated_append (h : ∀ y ∈ note, ¬ M y) (hsep : Separated M G l) :
    Separated M G (l ++ note) := by
  induction note using List.reverseRecOn with
  | nil => simpa using hsep
  | append_singleton note y ih =>
    rw [← List.append_assoc, separated_concat]
    exact ⟨ih fun z hz => h z (List.mem_append_left _ hz), fun hy => absurd hy (h y (by simp))⟩

end AoMarket.Separation
