import Mathlib.Data.List.Nodup

/-!
Tables as lists of rows, with the three things a relational schema promises: a
key is unique, a reference points at a parent row, and deleting parents takes
the rows that refer to them. Each statement (delete, update, insert) is one
definition here, with the lemmas that it keeps keys and references, and a row
that no statement selects is left as it was.
-/

namespace AoMarket.Relational

variable {ρ τ κ : Type}

def Keyed (key : ρ → κ) (rows : List ρ) : Prop := (rows.map key).Nodup

def Refers (ref : τ → κ) (children : List τ) (key : ρ → κ) (parents : List ρ) : Prop :=
  ∀ c ∈ children, ref c ∈ parents.map key

def deleteRows (p : ρ → Bool) (rows : List ρ) : List ρ := rows.filter fun r => !p r

def updateRows (p : ρ → Bool) (f : ρ → ρ) (rows : List ρ) : List ρ :=
  rows.map fun r => if p r then f r else r

/-- The children left by `ON DELETE CASCADE` when the parents selected by `p` go. -/
def cascade [DecidableEq κ] (ref : τ → κ) (key : ρ → κ) (p : ρ → Bool) (parents : List ρ)
    (children : List τ) : List τ :=
  children.filter fun c => !parents.any fun r => p r && key r == ref c

def lookup [DecidableEq κ] (key : ρ → κ) (k : κ) (rows : List ρ) : Option ρ :=
  rows.find? fun r => key r == k

theorem mem_deleteRows {p : ρ → Bool} {rows : List ρ} {r : ρ} :
    r ∈ deleteRows p rows ↔ r ∈ rows ∧ p r = false := by
  simp [deleteRows]

theorem deleteRows_sublist (p : ρ → Bool) (rows : List ρ) : (deleteRows p rows).Sublist rows :=
  List.filter_sublist

theorem cascade_sublist [DecidableEq κ] (ref : τ → κ) (key : ρ → κ) (p : ρ → Bool) (parents : List ρ)
    (children : List τ) : (cascade ref key p parents children).Sublist children :=
  List.filter_sublist

theorem mem_cascade [DecidableEq κ] {ref : τ → κ} {key : ρ → κ} {p : ρ → Bool} {parents : List ρ}
    {children : List τ} {c : τ} :
    c ∈ cascade ref key p parents children ↔
      c ∈ children ∧ ∀ r ∈ parents, p r = true → key r ≠ ref c := by
  simp [cascade]

section Keys
variable {key : ρ → κ} {rows : List ρ}

theorem Keyed.sublist {rows' : List ρ} (h : Keyed key rows) (hs : rows'.Sublist rows) :
    Keyed key rows' :=
  List.Nodup.sublist (hs.map key) h

theorem Keyed.delete (h : Keyed key rows) (p : ρ → Bool) : Keyed key (deleteRows p rows) :=
  h.sublist (deleteRows_sublist p rows)

theorem map_updateRows (p : ρ → Bool) {f : ρ → ρ} (hf : ∀ r, key (f r) = key r) :
    (updateRows p f rows).map key = rows.map key := by
  simp only [updateRows, List.map_map]
  apply List.map_congr_left
  intro r _
  simp only [Function.comp_apply]
  split
  · exact hf r
  · rfl

theorem Keyed.update (h : Keyed key rows) (p : ρ → Bool) {f : ρ → ρ}
    (hf : ∀ r, key (f r) = key r) : Keyed key (updateRows p f rows) := by
  unfold Keyed
  rwa [map_updateRows p hf]

theorem Keyed.insert {r : ρ} (h : Keyed key rows) (hr : key r ∉ rows.map key) :
    Keyed key (rows ++ [r]) := by
  unfold Keyed
  rw [List.map_append]
  exact List.Nodup.append h (List.nodup_singleton _) (by simpa using hr)

theorem Keyed.eq_of_mem {r r' : ρ} (h : Keyed key rows) (hr : r ∈ rows) (hr' : r' ∈ rows)
    (hk : key r = key r') : r = r' :=
  List.inj_on_of_nodup_map h hr hr' hk

theorem lookup_eq_some [DecidableEq κ] {k : κ} {r : ρ} (h : Keyed key rows) :
    lookup key k rows = some r ↔ r ∈ rows ∧ key r = k := by
  constructor
  · intro hl
    exact ⟨List.mem_of_find?_eq_some hl, by simpa using List.find?_some hl⟩
  · rintro ⟨hr, rfl⟩
    cases hl : lookup key (key r) rows with
    | none =>
      have := List.find?_eq_none.mp hl r hr
      simp at this
    | some r' =>
      have hr' := List.mem_of_find?_eq_some hl
      have hk : key r' = key r := by simpa using List.find?_some hl
      exact congrArg some (h.eq_of_mem hr' hr hk)

theorem lookup_eq_none [DecidableEq κ] {k : κ} : lookup key k rows = none ↔ k ∉ rows.map key := by
  simp [lookup]

theorem lookup_insert [DecidableEq κ] (k : κ) (r : ρ) :
    lookup key k (rows ++ [r]) = (lookup key k rows).or (if key r = k then some r else none) := by
  unfold lookup
  rw [List.find?_append]
  by_cases h : key r = k <;> simp [h]

theorem lookup_deleteRows [DecidableEq κ] (k k' : κ) :
    lookup key k (deleteRows (fun r => key r == k') rows) =
      if k = k' then none else lookup key k rows := by
  unfold lookup deleteRows
  rw [List.find?_filter]
  by_cases h : k = k'
  · rw [if_pos h, List.find?_eq_none]
    intro r _ hr
    simp [h] at hr
  · rw [if_neg h]
    apply congrArg (fun p => List.find? p rows)
    funext r
    by_cases hk : key r = k
    · simp [hk, h]
    · simp [hk]

theorem lookup_updateRows [DecidableEq κ] (k : κ) (p : ρ → Bool) {f : ρ → ρ}
    (hf : ∀ r, key (f r) = key r) :
    lookup key k (updateRows p f rows) =
      (lookup key k rows).map fun r => if p r then f r else r := by
  unfold lookup updateRows
  rw [List.find?_map]
  have hkey : ((fun r => key r == k) ∘ fun r => if p r = true then f r else r) =
      fun r => key r == k := by
    funext r
    simp only [Function.comp_apply]
    split
    · rw [hf r]
    · rfl
  rw [hkey]

end Keys

section References
variable {ref : τ → κ} {children : List τ} {key : ρ → κ} {parents : List ρ}

theorem Refers.sublist {children' : List τ} (h : Refers ref children key parents)
    (hs : children'.Sublist children) : Refers ref children' key parents :=
  fun c hc => h c (hs.subset hc)

theorem Refers.insert (h : Refers ref children key parents) {c : τ}
    (hc : ref c ∈ parents.map key) : Refers ref (children ++ [c]) key parents := by
  intro c' hc'
  rcases List.mem_append.mp hc' with hold | hnew
  · exact h c' hold
  · rw [List.mem_singleton.mp hnew]
    exact hc

theorem Refers.insert_parent (h : Refers ref children key parents) (r : ρ) :
    Refers ref children key (parents ++ [r]) := by
  intro c hc
  rw [List.map_append]
  exact List.mem_append_left _ (h c hc)

theorem Refers.update (h : Refers ref children key parents) (p : τ → Bool) {f : τ → τ}
    (hf : ∀ c, ref (f c) = ref c) : Refers ref (updateRows p f children) key parents := by
  intro c hc
  obtain ⟨c', hc', rfl⟩ := List.mem_map.mp hc
  have href : ref (if p c' then f c' else c') = ref c' := by
    split
    · exact hf c'
    · rfl
  rw [href]
  exact h c' hc'

theorem Refers.update_parent (h : Refers ref children key parents) (p : ρ → Bool) {f : ρ → ρ}
    (hf : ∀ r, key (f r) = key r) : Refers ref children key (updateRows p f parents) := by
  unfold Refers
  rwa [map_updateRows p hf]

/-- Deleting parents together with their children leaves no dangling reference. -/
theorem Refers.cascade [DecidableEq κ] (h : Refers ref children key parents) (p : ρ → Bool) :
    Refers ref (cascade ref key p parents children) key (deleteRows p parents) := by
  intro c hc
  obtain ⟨hmem, hkeep⟩ := mem_cascade.mp hc
  obtain ⟨r, hr, hk⟩ := List.mem_map.mp (h c hmem)
  have hpr : p r = false := by
    by_contra hne
    exact hkeep r hr (Bool.of_not_eq_false hne) hk
  exact List.mem_map.mpr ⟨r, mem_deleteRows.mpr ⟨hr, hpr⟩, hk⟩

/-- Every child goes when every parent does. -/
theorem cascade_all [DecidableEq κ] (h : Refers ref children key parents) {p : ρ → Bool}
    (hp : ∀ r ∈ parents, p r = true) : Relational.cascade ref key p parents children = [] := by
  apply List.eq_nil_iff_forall_not_mem.mpr
  intro c hc
  obtain ⟨hmem, hkeep⟩ := mem_cascade.mp hc
  obtain ⟨r, hr, hk⟩ := List.mem_map.mp (h c hmem)
  exact hkeep r hr (hp r hr) hk

end References

/-! Rows a statement does not select -/

section Untouched
variable {q p : ρ → Bool} {rows : List ρ}

theorem filter_deleteRows (h : ∀ r ∈ rows, q r = true → p r = false) :
    (deleteRows p rows).filter q = rows.filter q := by
  simp only [deleteRows, List.filter_filter]
  apply List.filter_congr
  intro r hr
  cases hq : q r with
  | false => simp
  | true => simp [h r hr hq]

theorem filter_updateRows {f : ρ → ρ} (h : ∀ r ∈ rows, p r = true → q r = false)
    (h' : ∀ r ∈ rows, p r = true → q (f r) = false) :
    (updateRows p f rows).filter q = rows.filter q := by
  induction rows with
  | nil => rfl
  | cons r rest ih =>
    have hrest := ih (fun r hr => h r (List.mem_cons_of_mem _ hr))
      (fun r hr => h' r (List.mem_cons_of_mem _ hr))
    simp only [updateRows, List.map_cons] at hrest ⊢
    cases hp : p r with
    | false => simp [List.filter_cons, hrest]
    | true =>
      have hq := h r List.mem_cons_self hp
      have hqf := h' r List.mem_cons_self hp
      simp [hq, hqf, hrest]

theorem filter_insert {r : ρ} (h : q r = false) : (rows ++ [r]).filter q = rows.filter q := by
  simp [List.filter_append, h]

theorem filter_cascade [DecidableEq κ] {ref : τ → κ} {key : ρ → κ} {children : List τ} {q : τ → Bool}
    (h : ∀ c ∈ children, q c = true → ∀ r ∈ rows, p r = true → key r ≠ ref c) :
    (cascade ref key p rows children).filter q = children.filter q := by
  simp only [cascade, List.filter_filter]
  apply List.filter_congr
  intro c hc
  cases hq : q c with
  | false => simp
  | true =>
    have hnone : (rows.any fun r => p r && key r == ref c) = false := by
      simp only [List.any_eq_false, Bool.and_eq_true, beq_iff_eq, not_and]
      exact fun r hr hp => h c hc hq r hr hp
    simp [hnone]

end Untouched

end AoMarket.Relational
