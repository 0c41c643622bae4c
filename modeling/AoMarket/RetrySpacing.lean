import AoMarket.Concurrency
import AoMarket.ResyncResult
import AoMarket.RetryBackoff
import AoMarket.SchedulerRuns

/-!
How often an id that the item service does not know is asked for. Next to anything else the
process does, the resync loop records a miss of an id only after the delays of its earlier
misses have passed one after the other, so the misses on record grow with the logarithm of
the time at first and then by one a week.
-/

namespace AoMarket.RetrySpacing

open Coroutine Interleaving Reliance Relational Models Database PyNumber Environment SettingsRepo
  AodbBackoffRepo AutoTrack RetryBackoff Scheduler SchedulerRuns Writes ServiceWrites Concurrency

/-- The delays after the first `n` misses together. -/
def waited : ℕ → ℤ
  | 0 => 0
  | n + 1 => waited n + cappedDelay (n + 1)

/-- A row of an id whose delays have all passed since `since`. -/
structure SpacedRow (since now : ℤ) (r : AodbLookupBackoff) : Prop where
  counted : 1 ≤ r.failureCount
  next : r.nextRetryAt = r.lastAttemptedAt + cappedDelay r.failureCount
  spaced : since + waited (r.failureCount - 1) ≤ r.lastAttemptedAt
  past : r.lastAttemptedAt ≤ now

def Spaced (env : Env) (since : ℤ) (w : World) : Prop :=
  ∀ a r, lookup AodbLookupBackoff.aoid a w.db.lookupBackoff = some r →
    SpacedRow since (env.clock w.tick) r

/-- Nothing happens to the rows while time passes. -/
def Aside (w w' : World) : Prop :=
  w'.db.lookupBackoff = w.db.lookupBackoff ∧ w.tick ≤ w'.tick

def Orderly (env : Env) (since : ℤ) (w w' : World) : Prop :=
  w.tick ≤ w'.tick ∧ (Spaced env since w → Spaced env since w')

/-- The ids may be asked for, and have been since the count began. -/
structure Free (env : Env) (since : ℤ) (aoids : List ℤ) (w : World) : Prop where
  begun : since ≤ env.clock w.tick
  due : ∀ a ∈ aoids, ∀ r, lookup AodbLookupBackoff.aoid a w.db.lookupBackoff = some r →
    r.nextRetryAt ≤ env.clock w.tick

variable {env : Env} {since : ℤ} {α β : Type}

theorem free_nil {w : World} (hw : since ≤ env.clock w.tick) : Free env since [] w := ⟨hw, by simp⟩

theorem Aside.refl (w : World) : Aside w w := ⟨rfl, le_refl _⟩

theorem Aside.trans (a b c : World) (h : Aside a b) (h' : Aside b c) : Aside a c :=
  ⟨h'.1.trans h.1, h.2.trans h'.2⟩

theorem SpacedRow.later {now now' : ℤ} {r : AodbLookupBackoff} (h : SpacedRow since now r)
    (hnow : now ≤ now') : SpacedRow since now' r := { h with past := h.past.trans hnow }

section Monotone
variable (hclock : ∀ s t, s ≤ t → env.clock s ≤ env.clock t)
include hclock

theorem Aside.orderly {w w' : World} (h : Aside w w') : Orderly env since w w' := by
  refine ⟨h.2, fun hspaced a r hr => ?_⟩
  rw [h.1] at hr
  exact (hspaced a r hr).later (hclock _ _ h.2)

theorem Free.aside {aoids : List ℤ} {w w' : World} (hfree : Free env since aoids w)
    (h : Aside w w') : Free env since aoids w' where
  begun := hfree.begun.trans (hclock _ _ h.2)
  due := fun a ha r hr => by
    rw [h.1] at hr
    exact (hfree.due a ha r hr).trans (hclock _ _ h.2)

end Monotone

/-- A coroutine of the resync, left in the world `w`: it relies on the others staying aside,
keeps the rows spaced, and ends as `Q` says. -/
def Spaces (env : Env) (since : ℤ) (p : M α) (w : World) (Q : α → World → Prop) : Prop :=
  Assures Aside (fun _ => Orderly env since) (fun a t => since ≤ env.clock t.tick ∧ Q a t)
    (fun _ t => since ≤ env.clock t.tick) p w

section Rules
variable {p : M α} {w : World} {Q : α → World → Prop}

theorem Spaces.pure {a : α} (hw : since ≤ env.clock w.tick) (h : Q a w) :
    Spaces env since (pure a) w Q := ⟨hw, h⟩

theorem Spaces.throw (e : PyErr) (hw : since ≤ env.clock w.tick) :
    Spaces env since (throw e : M α) w Q := hw

theorem Spaces.bind {f : α → M β} {Q' : β → World → Prop} (hp : Spaces env since p w Q)
    (hf : ∀ a t, since ≤ env.clock t.tick → Q a t → Spaces env since (f a) t Q') :
    Spaces env since (p >>= f) w Q' :=
  Assures.bind hp fun a t h => hf a t h.1 h.2

theorem Spaces.handle {h : PyErr → M α} (hp : Spaces env since p w Q)
    (hh : ∀ e t, since ≤ env.clock t.tick → Spaces env since (h e) t Q) :
    Spaces env since (tryCatch p h) w Q :=
  Assures.handle hp hh

theorem Spaces.mono {Q' : α → World → Prop} (hp : Spaces env since p w Q)
    (hQ : ∀ a t, Q a t → Q' a t) : Spaces env since p w Q' :=
  Assures.mono hp (fun _ _ _ h => h) (fun a t h => ⟨h.1, hQ a t h.2⟩) fun _ _ h => h

section Monotone
variable (hclock : ∀ s t, s ≤ t → env.clock s ≤ env.clock t)
include hclock

/-- A coroutine that leaves the rows alone keeps the ids free that were. -/
theorem spaces_aside {S : α → Prop} {aoids : List ℤ}
    (hp : p.Always (fun _ => True) (fun _ => Aside) S) (hw : Free env since aoids w) :
    Spaces env since p w fun a t => S a ∧ Free env since aoids t := by
  refine Assures.mono (assures_of_always (P := Free env since aoids) hp
    (fun _ _ _ h => h.orderly hclock) ?_ hw) (fun _ _ _ h => h) ?_ ?_
  · intro t t' h hfree
    exact hfree.aside hclock (h.elim id id)
  · exact fun a t h => ⟨h.2.begun, h⟩
  · exact fun e t h => h.begun

theorem spaces_statement {call : Call} {f : ℕ → Db → Except PyErr (α × Db × List Event)}
    {aoids : List ℤ} (hw : Free env since aoids w)
    (hok : ∀ t, Aside w t → Free env since aoids t → ∀ a db note, f t.tick t.db = .ok (a, db, note) →
      Orderly env since t { db := db, tick := t.tick + 1, log := t.log ++ note } ∧
        Q a { db := db, tick := t.tick + 1, log := t.log ++ note }) :
    Spaces env since (statement env call f) w Q := by
  have hfail : ∀ t : World, Aside w t → Orderly env since t t.next ∧
      since ≤ env.clock t.next.tick := by
    intro t ht
    have hnext : Aside t t.next := ⟨rfl, Nat.le_succ _⟩
    exact ⟨hnext.orderly hclock, ((hw.aside hclock ht).aside hclock hnext).begun⟩
  refine Assures.act (fun t ht => ?_) (fun t a ht hres => ?_) (fun t e ht hres => ?_)
  · cases hfault : env.dbFault t.tick with
    | some e => exact (hfail t ht).1
    | none =>
      dsimp only
      cases hres : f t.tick t.db with
      | error e => exact (hfail t ht).1
      | ok r => exact (hok t ht (hw.aside hclock ht) r.1 r.2.1 r.2.2 hres).1
  · cases hfault : env.dbFault t.tick with
    | some e =>
      simp only [hfault] at hres
      cases hres
    | none =>
      simp only [hfault] at hres ⊢
      cases hf : f t.tick t.db with
      | error e =>
        simp only [hf] at hres
        cases hres
      | ok r =>
        simp only [hf] at hres
        cases hres
        exact ⟨(hfail t ht).2, (hok t ht (hw.aside hclock ht) r.1 r.2.1 r.2.2 hf).2⟩
  · cases hfault : env.dbFault t.tick with
    | some e => exact (hfail t ht).2
    | none =>
      dsimp only
      cases hf : f t.tick t.db with
      | error e => exact (hfail t ht).2
      | ok r => exact (hfail t ht).2

theorem spaces_query {call : Call} {f : ℕ → Db → Except PyErr α} {note : List Event}
    {aoids : List ℤ} (hw : Free env since aoids w)
    (hQ : ∀ t t', Aside w t → t'.db = t.db → t'.tick = t.tick + 1 → Free env since aoids t' →
      ∀ a, f t.tick t.db = .ok a → Q a t') :
    Spaces env since (query env call f note) w Q := by
  refine spaces_statement hclock hw fun t ht hfree a db note' hres => ?_
  cases hf : f t.tick t.db with
  | error e =>
    rw [hf] at hres
    cases hres
  | ok b =>
    rw [hf] at hres
    cases hres
    let t' : World := { db := t.db, tick := t.tick + 1, log := t.log ++ note }
    have hnext : Aside t t' := ⟨rfl, Nat.le_succ _⟩
    exact ⟨hnext.orderly hclock, hQ t t' ht rfl rfl (hfree.aside hclock hnext) a hf⟩

/-- The time read is between the moments before and after the call. -/
theorem spaces_clock {aoids : List ℤ} (hw : Free env since aoids w) :
    Spaces env since (external .clock fun tick => .ok (env.clock tick) : M ℤ) w fun now t =>
      Aside w t ∧ env.clock w.tick ≤ now ∧ now ≤ env.clock t.tick ∧ Free env since aoids t := by
  refine Assures.act (fun t ht => ?_) (fun t now ht hres => ?_) (fun t e ht hres => ?_)
  · exact Aside.orderly hclock ⟨rfl, Nat.le_succ _⟩
  · cases hres
    have hnext : Aside t { t.next with log := t.log ++ [] } := ⟨rfl, Nat.le_succ _⟩
    have hlater := Aside.trans _ _ _ ht hnext
    have hfree := hw.aside hclock hlater
    exact ⟨hfree.begun, hlater, hclock _ _ ht.2, hclock _ _ (Nat.le_succ _), hfree⟩
  · cases hres

end Monotone
end Rules

/-! Coroutines that leave the rows alone -/

theorem aside_of_steps {w w' : World} (h : Steps (fun op => op ≠ .backoff) w w') : Aside w w' := by
  obtain ⟨htick, note, _, ⟨hdb, _⟩ | ⟨op, hop, heffect⟩⟩ := h
  · exact ⟨by rw [hdb], by omega⟩
  · exact ⟨heffect.backoff_eq hop, by omega⟩

theorem aside_of_keeps {p : M α} (h : Keeps (fun op => op ≠ .backoff) p) :
    p.Always (fun _ => True) (fun _ => Aside) fun _ => True := by
  have hframes : p.Frames Aside := Coro.Frames.mono h fun _ _ => aside_of_steps
  unfold Coro.Frames at hframes
  exact hframes

theorem aside_external {call : Call} {f : ℕ → Except PyErr α} {S : α → Prop}
    (hS : ∀ t a, f t = .ok a → S a) :
    (external call f).Always (fun _ => True) (fun _ => Aside) S := by
  refine Coro.Always.act (fun w _ => ?_) fun w _ a ha => ?_
  · cases f w.tick with
    | error e => exact ⟨rfl, Nat.le_succ _⟩
    | ok a => exact ⟨rfl, Nat.le_succ _⟩
  · cases hres : f w.tick with
    | error e =>
      rw [hres] at ha
      cases ha
    | ok b =>
      rw [hres] at ha
      cases ha
      exact hS w.tick a hres

theorem aside_fetchPages (sourceUrl : String) (count : ℤ) (pages : List ℕ) (fetched : ℕ)
    {aoids : List ℤ} (hnodup : aoids.Nodup) :
    (fetchPages env sourceUrl count pages fetched aoids).Always (fun _ => True) (fun _ => Aside)
      fun r => r.2.Nodup := by
  induction pages generalizing fetched aoids with
  | nil => exact Coro.Always.pure hnodup
  | cons page rest ih =>
    refine Coro.Always.bind (aside_external (S := fun _ => True) fun _ _ _ => trivial)
      fun html _ => ?_
    cases html with
    | none => exact Coro.Always.pure hnodup
    | some html =>
      refine Coro.Always.bind (Coro.Always.ofExcept (Q := fun _ => True) fun _ _ => trivial)
        fun found _ => ?_
      have hadded := ResyncResult.nodup_addNew hnodup found
      split
      · exact Coro.Always.pure hnodup
      · dsimp only
        split
        · exact Coro.Always.pure hadded
        · exact ih (fetched + 1) hadded

theorem aside_lookupItems (aoids : List ℤ) :
    (lookupItems env aoids).Always (fun _ => True) (fun _ => Aside)
      fun answers => answers.map Prod.fst = aoids := by
  unfold lookupItems
  induction aoids with
  | nil => exact Coro.Always.pure rfl
  | cons aoid rest ih =>
    rw [List.mapM_cons]
    have hone : (do return (aoid, ← MarketService.getItem env aoid) : M (ℤ × Option Item)).Always
        (fun _ => True) (fun _ => Aside) fun answer => answer.1 = aoid :=
      Coro.Always.bind (aside_external (S := fun _ => True) fun _ _ _ => trivial)
        fun _ _ => Coro.Always.pure rfl
    refine Coro.Always.bind hone fun answer hanswer => Coro.Always.bind ih fun answers hrest => ?_
    refine Coro.Always.pure ?_
    rw [List.map_cons, hanswer, hrest]

/-! The repository -/

def missed (aoid now : ℤ) (n : ℕ) : AodbLookupBackoff where
  aoid := aoid
  failureCount := n
  lastAttemptedAt := now
  nextRetryAt := now + cappedDelay n

/-- A miss that is recorded when the id is due comes after the delays of the earlier ones. -/
theorem spacedRow_next {now later : ℤ} {r : AodbLookupBackoff} (aoid : ℤ)
    (h : SpacedRow since now r) (hdue : r.nextRetryAt ≤ later) :
    SpacedRow since later (missed aoid later (r.failureCount + 1)) where
  counted := Nat.succ_le_succ (Nat.zero_le _)
  next := rfl
  spaced := by
    obtain ⟨n, hn⟩ : ∃ n, r.failureCount = n + 1 := ⟨r.failureCount - 1, by have := h.counted; omega⟩
    have hspaced := h.spaced
    have hnext := h.next
    simp only [missed, hn, Nat.add_sub_cancel, waited] at hspaced hnext ⊢
    omega
  past := le_refl _

theorem spacedRow_first {now : ℤ} (aoid : ℤ) (h : since ≤ now) :
    SpacedRow since now (missed aoid now 1) :=
  ⟨le_refl 1, rfl, by simpa [waited, missed] using h, le_refl _⟩

/-- The delay that is stored is the capped one. -/
theorem retry_eq {n : ℕ} {now retry : ℤ} (h : nextRetryAt n now = some retry) :
    retry = now + cappedDelay n := by
  by_cases hn : n ≤ 35
  · rw [nextRetryAt_small hn] at h
    exact (Option.some.inj h).symm
  · rw [nextRetryAt_large (by omega)] at h
    cases h

section Repository
variable (hclock : ∀ s t, s ≤ t → env.clock s ≤ env.clock t)
include hclock

/-- The ids that are due are free: the delays of their rows have passed. -/
theorem spaces_dueForRetry {aoids : List ℤ} {w : World} (hnodup : aoids.Nodup)
    (hw : Free env since [] w) :
    Spaces env since (dueForRetry env aoids) w fun due t => due.Nodup ∧ Free env since due t := by
  unfold dueForRetry
  split
  · exact Spaces.pure hw.begun ⟨List.nodup_nil, hw⟩
  refine Spaces.bind (spaces_clock hclock hw) fun now t _ hnow => ?_
  obtain ⟨_, _, hlater, hfree⟩ := hnow
  refine Spaces.bind (Q := fun held u => Free env since (aoids.filter fun a => !held.contains a) u)
    (spaces_query hclock hfree fun t₁ t₂ ht₁ hdb htick hfree₂ held hheld => ?_) ?_
  · obtain ⟨_, _, hheld⟩ := except_bind_eq_ok.mp hheld
    refine ⟨hfree₂.begun, fun a ha r hr => ?_⟩
    obtain ⟨ha, hnot⟩ := List.mem_filter.mp ha
    rw [hdb] at hr
    obtain ⟨hmem, haoid⟩ := (lookup_eq_some t₁.db.sound.backoff_key).mp hr
    by_contra hheldBack
    have hlate : now < r.nextRetryAt := by
      have hread := hclock t.tick t₂.tick (by have := ht₁.2; omega)
      omega
    have hin : a ∈ held := by
      rw [← Except.ok.inj hheld]
      refine List.mem_map.mpr ⟨r, List.mem_filter.mpr ⟨hmem, ?_⟩, haoid⟩
      rw [haoid]
      simpa using And.intro ha hlate
    simp [hin] at hnot
  · exact fun held u hu hfree' => Spaces.pure hu ⟨hnodup.filter _, hfree'⟩

/-- What a statement of the repository leaves in the table. -/
theorem spaced_upsert {w : World} {row : AodbLookupBackoff} {log : List Event}
    (hspaced : Spaced env since w) (hrow : SpacedRow since (env.clock (w.tick + 1)) row) :
    Spaced env since { db := w.db.upsertBackoff row, tick := w.tick + 1, log := log } := by
  intro a r hr
  by_cases ha : a = row.aoid
  · rw [ha, lookup_upsertBackoff w.db row] at hr
    rw [← Option.some.inj hr]
    exact hrow
  · rw [lookup_upsertBackoff_ne w.db ha] at hr
    exact (hspaced a r hr).later (hclock _ _ (Nat.le_succ _))

theorem free_upsert {w : World} {row : AodbLookupBackoff} {log : List Event} {aoids : List ℤ}
    (hfree : Free env since aoids w) (hnew : row.aoid ∉ aoids) :
    Free env since aoids { db := w.db.upsertBackoff row, tick := w.tick + 1, log := log } := by
  have hlater := hclock _ _ (Nat.le_succ w.tick)
  refine ⟨hfree.begun.trans hlater, fun a ha r hr => ?_⟩
  have hne : a ≠ row.aoid := fun heq => hnew (heq ▸ ha)
  rw [lookup_upsertBackoff_ne w.db hne] at hr
  exact (hfree.due a ha r hr).trans hlater

/-- A miss is recorded after the delays of all earlier ones, so the rows stay spaced; its own id
is no longer free. -/
theorem spaces_recordFailure {aoid : ℤ} {rest : List ℤ} {w : World} (hnew : aoid ∉ rest)
    (hw : Free env since (aoid :: rest) w) :
    Spaces env since (recordFailure env aoid) w fun _ t => Free env since rest t := by
  unfold recordFailure
  refine Spaces.bind (spaces_clock hclock hw) fun now t _ hnow => ?_
  obtain ⟨haside, hlow, hhigh, hfree⟩ := hnow
  refine Spaces.bind (Q := fun existing u => Aside t u ∧ Free env since (aoid :: rest) u ∧
      existing = lookup AodbLookupBackoff.aoid aoid u.db.lookupBackoff)
    (spaces_query hclock hfree fun t₁ t₂ ht₁ hdb htick hfree₂ existing hread => ?_) ?_
  · obtain ⟨_, _, hread⟩ := except_bind_eq_ok.mp hread
    refine ⟨⟨by rw [hdb, ht₁.1], by have := ht₁.2; omega⟩, hfree₂, ?_⟩
    rw [hdb]
    exact (Except.ok.inj hread).symm
  · rintro existing u hu ⟨htu, hfreeu, hexisting⟩
    dsimp only
    split
    · exact Spaces.throw _ hu
    · next retry hretry =>
      have hretry := retry_eq hretry
      refine spaces_statement hclock hfreeu fun v hv hfreev _ db note hres => ?_
      obtain ⟨_, _, hres⟩ := except_bind_eq_ok.mp hres
      cases hres
      have hrest : Free env since rest v :=
        ⟨hfreev.begun, fun a ha => hfreev.due a (List.mem_cons_of_mem aoid ha)⟩
      have hnowv : now ≤ env.clock (v.tick + 1) := by
        have := htu.2
        have := hv.2
        exact hhigh.trans (hclock _ _ (by omega))
      refine ⟨⟨Nat.le_succ _, fun hspaced => spaced_upsert hclock hspaced ?_⟩,
        free_upsert hclock hrest hnew⟩
      rw [hretry]
      cases hrow : lookup AodbLookupBackoff.aoid aoid u.db.lookupBackoff with
      | none =>
        rw [hexisting, hrow]
        exact (spacedRow_first aoid (hw.begun.trans hlow)).later hnowv
      | some r =>
        rw [hexisting, hrow]
        have hrowv : lookup AodbLookupBackoff.aoid aoid v.db.lookupBackoff = some r := by
          rw [hv.1, hrow]
        have hdue : r.nextRetryAt ≤ now := by
          refine (hw.due aoid List.mem_cons_self r ?_).trans hlow
          rw [← haside.1, ← htu.1, hrow]
        exact (spacedRow_next aoid (hspaced aoid r hrowv) hdue).later hnowv

/-- A success drops the row, and the count of its id begins again. -/
theorem spaces_recordSuccess {aoid : ℤ} {rest : List ℤ} {w : World}
    (hw : Free env since (aoid :: rest) w) :
    Spaces env since (recordSuccess env aoid) w fun _ t => Free env since rest t := by
  refine spaces_statement hclock hw fun v hv hfreev _ db note hres => ?_
  obtain ⟨_, _, hres⟩ := except_bind_eq_ok.mp hres
  cases hres
  have hlater := hclock _ _ (Nat.le_succ v.tick)
  have hrows : ∀ a r, lookup AodbLookupBackoff.aoid a
      (v.db.deleteBackoff fun r => r.aoid == aoid).lookupBackoff = some r →
      lookup AodbLookupBackoff.aoid a v.db.lookupBackoff = some r := by
    intro a r hr
    have hr' := (lookup_deleteRows a aoid).symm.trans hr
    split at hr'
    · cases hr'
    · exact hr'
  refine ⟨⟨Nat.le_succ _, fun hspaced a r hr => ?_⟩, hfreev.begun.trans hlater, fun a ha r hr => ?_⟩
  · exact (hspaced a r (hrows a r hr)).later hlater
  · exact (hfreev.due a (List.mem_cons_of_mem aoid ha) r (hrows a r hr)).trans hlater

/-- The answers are recorded one by one, each id once. -/
theorem spaces_recordLookups {answers : List (ℤ × Option Item)} {w : World}
    (hnodup : (answers.map Prod.fst).Nodup) (hw : Free env since (answers.map Prod.fst) w) :
    Spaces env since (recordLookups env answers) w fun _ _ => True := by
  induction answers generalizing w with
  | nil => exact Spaces.pure hw.begun trivial
  | cons answer rest ih =>
    obtain ⟨aoid, item⟩ := answer
    obtain ⟨hnew, hrest⟩ := List.nodup_cons.mp hnodup
    cases item with
    | none => exact Spaces.bind (spaces_recordFailure hclock hnew hw) fun _ t _ ht => ih hrest ht
    | some item =>
      refine Spaces.bind (spaces_recordSuccess hclock hw) fun _ t _ ht => ?_
      exact Spaces.bind (ih hrest ht) fun _ u hu _ => Spaces.pure hu trivial

/-- Asking for the due ids and recording the answers keeps the rows spaced. -/
theorem spaces_resolveItems {aoids : List ℤ} {w : World} (hnodup : aoids.Nodup)
    (hw : Free env since [] w) :
    Spaces env since (resolveItems env aoids) w fun _ _ => True := by
  unfold resolveItems
  split
  · exact Spaces.pure hw.begun trivial
  refine Spaces.bind (spaces_dueForRetry hclock hnodup hw) fun due t _ ht => ?_
  obtain ⟨hdue, hfree⟩ := ht
  have hperm := env.idOrder_perm due
  have hfree' : Free env since (env.idOrder due) t :=
    ⟨hfree.begun, fun a ha => hfree.due a (hperm.mem_iff.mp ha)⟩
  refine Spaces.bind (spaces_aside hclock (aside_lookupItems _) hfree') fun answers u _ hu => ?_
  obtain ⟨hids, hfreeu⟩ := hu
  rw [← hids] at hfreeu
  exact spaces_recordLookups hclock (by rw [hids]; exact hperm.nodup_iff.mpr hdue) hfreeu

end Repository

/-! The resync and its loop -/

section Loop
variable (hclock : ∀ s t, s ≤ t → env.clock s ≤ env.clock t)
include hclock

theorem spaces_keeps {p : M α} {w : World} (hp : Keeps (fun op => op ≠ .backoff) p)
    (hw : since ≤ env.clock w.tick) : Spaces env since p w fun _ _ => True :=
  (spaces_aside hclock (aside_of_keeps hp) (free_nil hw)).mono fun _ _ _ => trivial

theorem spaces_trackRanked {pagesFetched : ℕ} {aoids : List ℤ} {w : World} (hnodup : aoids.Nodup)
    (hw : since ≤ env.clock w.tick) :
    Spaces env since (trackRanked env pagesFetched aoids) w fun _ _ => True := by
  refine Spaces.bind (spaces_resolveItems hclock hnodup (free_nil hw)) fun resolved t ht _ => ?_
  refine spaces_keeps hclock ?_ ht
  refine Coro.Frames.bind (keeps_unflagAutotrackNotIn (by simp) _) fun _ => ?_
  refine Coro.Frames.bind (keeps_existingAoids _) fun existing => ?_
  refine Coro.Frames.bind (keeps_trackResolved (by simp) _ _) fun _ => ?_
  refine Coro.Frames.bind (keeps_external fun _ => Silent.nil) fun now => ?_
  refine Coro.Frames.bind (keeps_set (by simp) _ _) fun _ => ?_
  exact Coro.Frames.bind (keeps_announceBackground _) fun _ => Coro.Frames.pure _

/-- A resync keeps the rows spaced next to anything that leaves them aside. -/
theorem spaces_sync {w : World} (hw : since ≤ env.clock w.tick) :
    Spaces env since (syncTopTradedItems env) w fun _ _ => True := by
  refine Spaces.bind (spaces_keeps hclock (keeps_getBool _) hw) fun on t ht _ => ?_
  cases on with
  | false => exact Spaces.pure ht trivial
  | true =>
    refine Spaces.bind (spaces_keeps hclock (keeps_getInt _) ht) fun count u hu _ => ?_
    split
    · exact Spaces.pure hu trivial
    refine Spaces.bind (spaces_keeps hclock (Coro.Frames.ofExcept _) hu) fun pages v hv _ => ?_
    refine Spaces.bind (spaces_keeps hclock (keeps_getStr _) hv) fun url x hx _ => ?_
    refine Spaces.bind (spaces_aside hclock (aside_fetchPages _ _ _ _ List.nodup_nil)
      (free_nil hx)) fun fetched y hy hfetched => ?_
    dsimp only
    split
    · exact Spaces.pure hy trivial
    · refine Spaces.bind (spaces_trackRanked hclock ?_ hy) fun _ z hz _ => Spaces.pure hz trivial
      exact hfetched.1.sublist (List.take_sublist _ _)

def LoopSpaces (env : Env) (since : ℤ) (p : Loop α) (w : World) : Prop :=
  Assures Aside (fun _ => Orderly env since) (fun _ t => since ≤ env.clock t.tick)
    (fun _ t => since ≤ env.clock t.tick) p w

omit hclock in
theorem loop_relabel {p : M α} {w : World} {Q : α → World → Prop} (hp : Spaces env since p w Q) :
    LoopSpaces env since (p.relabel LoopCall.call) w :=
  Assures.relabel (Assures.mono hp (fun _ _ _ h => h) (fun _ _ h => h.1) fun _ _ h => h)

omit hclock in
theorem loop_bind {p : Loop α} {f : α → Loop β} {w : World} (hp : LoopSpaces env since p w)
    (hf : ∀ a t, since ≤ env.clock t.tick → LoopSpaces env since (f a) t) :
    LoopSpaces env since (p >>= f) w :=
  Assures.bind hp hf

omit hclock in
theorem loop_pure {a : α} {w : World} (hw : since ≤ env.clock w.tick) :
    LoopSpaces env since (pure a) w := hw

theorem loop_sleep {interval : ℤ} {w : World} (hw : since ≤ env.clock w.tick) :
    LoopSpaces env since (sleep (fun w => w) interval) w := by
  have haside : (sleep (fun w => w) interval).Always (fun _ => True) (fun _ => Aside)
      fun _ => True := by
    refine Coro.Always.act (fun t _ => ?_) fun _ _ _ _ => trivial
    cases double interval with
    | none => exact Aside.refl t
    | some x => exact Aside.refl t
  refine Assures.mono (assures_of_always (P := fun t : World => since ≤ env.clock t.tick) haside
    (fun _ _ _ h => h.orderly hclock) ?_ hw) (fun _ _ _ h => h) (fun _ _ h => h.2) fun _ _ h => h
  exact fun t t' h ht => ht.trans (hclock _ _ (h.elim And.right And.right))

theorem spaces_catchUp {w : World} (hw : since ≤ env.clock w.tick) :
    Spaces env since (catchUp env) w fun _ _ => True := by
  refine Spaces.handle ?_ fun e t ht => Spaces.pure ht trivial
  refine Spaces.bind (spaces_keeps hclock (keeps_getBool _) hw) fun on t ht _ => ?_
  cases on with
  | false => exact Spaces.pure ht trivial
  | true =>
    refine Spaces.bind (spaces_keeps hclock (keeps_getInt _) ht) fun minutes u hu _ => ?_
    refine Spaces.bind (spaces_keeps hclock (keeps_getInt _) hu) fun lastSync v hv _ => ?_
    refine Spaces.bind (spaces_keeps hclock (keeps_external fun _ => Silent.nil) hv)
      fun now x hx _ => ?_
    refine Spaces.bind (spaces_keeps hclock (Coro.Frames.ofExcept _) hx) fun old y hy _ => ?_
    cases old with
    | false => exact Spaces.pure hy trivial
    | true =>
      refine Spaces.bind (spaces_sync hclock hy) fun _ z hz _ => ?_
      refine Spaces.bind (spaces_keeps hclock (keeps_external fun _ => Silent.nil) hz)
        fun _ z' hz' _ => Spaces.pure hz' trivial

/-- Whatever the resync of a turn does, the rows stay spaced. -/
theorem spaces_autotrackTurn {w : World} (hw : since ≤ env.clock w.tick) :
    Spaces env since (autotrackTurn env) w fun _ _ => True := by
  refine Spaces.handle ?_ fun e t ht => Spaces.pure ht trivial
  refine Spaces.bind (spaces_keeps hclock (keeps_getBool _) hw) fun on t ht _ => ?_
  cases on with
  | false => exact Spaces.pure ht trivial
  | true =>
    refine Spaces.bind (spaces_keeps hclock (keeps_getInt _) ht) fun count u hu _ => ?_
    split
    · exact Spaces.pure hu trivial
    · refine Spaces.bind (spaces_sync hclock hu) fun _ v hv _ => ?_
      refine Spaces.bind (spaces_keeps hclock (keeps_external fun _ => Silent.nil) hv)
        fun _ x hx _ => Spaces.pure hx trivial

theorem spaces_readInterval {w : World} (hw : since ≤ env.clock w.tick) :
    Spaces env since (readInterval env) w fun _ _ => True := by
  refine Spaces.handle ?_ fun e t ht => Spaces.pure ht trivial
  exact Spaces.bind (spaces_keeps hclock (keeps_getInt _) hw) fun _ t ht _ => Spaces.pure ht trivial

/-- The same of all turns of the loop, by induction over them. -/
theorem spaces_autotrackTurns (stopping : ℕ → Bool) (fuel turn : ℕ) {w : World}
    (hw : since ≤ env.clock w.tick) :
    LoopSpaces env since (autotrackTurns env (apart stopping) fuel turn) w := by
  induction fuel generalizing turn w with
  | zero => exact loop_pure hw
  | succ fuel ih =>
    unfold autotrackTurns
    split
    · exact loop_pure hw
    · refine loop_bind (loop_relabel (spaces_readInterval hclock hw)) fun interval t ht => ?_
      refine loop_bind (loop_sleep hclock ht) fun _ u hu => ?_
      refine loop_bind (loop_relabel (spaces_autotrackTurn hclock hu)) fun _ v hv => ?_
      exact loop_bind (ih (turn + 1) hv) fun _ x hx => loop_pure hx

theorem spaces_autotrackTask (stopping : ℕ → Bool) (fuel : ℕ) {w : World}
    (hw : since ≤ env.clock w.tick) :
    LoopSpaces env since (autotrackTask env (apart stopping) fuel) w := by
  refine loop_bind (loop_bind (loop_relabel (spaces_catchUp hclock hw)) fun _ t ht => ?_)
    fun _ t ht => loop_pure ht
  exact loop_bind (spaces_autotrackTurns hclock stopping fuel 0 ht) fun _ u hu => loop_pure hu

end Loop

/-! The loop in company -/

def Resyncs : Task → Prop
  | .activity .sync | .activity (.request _ .triggerAutotrack) => True
  | _ => False

theorem not_backoff_of_commandWrites {player : String} {name : Commands.Command}
    {gs : Regex.Groups} (h : ChatWrites.CommandWrites player name gs .backoff) : False := by
  cases name with
  | unregister | untrackAll | apikeyRevoke => cases h.2
  | register => rcases h with h | h <;> cases h
  | apikeyGenerate => rcases h with h | h | h <;> cases h
  | filterPrice | filterQl | filterClear | overview =>
    obtain ⟨_, h⟩ := h
    cases h
  | unwatchAll => rcases h.2 with h | h <;> cases h
  | unwatchBulk | unwatch => rcases h with h | ⟨_, h⟩ <;> cases h
  | watchAoid => rcases h with h | ⟨_, h | h⟩ <;> cases h
  | _ => exact h.elim

theorem triggers_of_requestWrites {request : HttpRoutes.Request}
    (h : HttpWrites.RequestWrites request .backoff) : request = .triggerAutotrack := by
  cases request with
  | triggerAutotrack => rfl
  | register | unsubscribe => rcases h with h | h <;> cases h
  | updateSetting | startWatching | stopTracking | updateFilter | clearFilter => cases h
  | subscribe => rcases h with h | h | h <;> cases h
  | bulkUnsubscribe => rcases h with h | ⟨_, _, h⟩ <;> cases h
  | unsubscribeAll => rcases h.2 with h | h <;> cases h
  | unregister | untrackAll => cases h.2
  | triggerPoll =>
    rcases h with ⟨_, h⟩ | h | ⟨_, _, h⟩
    · cases h
    · cases h
    · rcases h with (h | h | h | ⟨_, h | h⟩ | h) | h <;> cases h
  | _ => exact h.elim

/-- Only a resync writes to the table. -/
theorem backoff_of_taskWrites {task : Task} (h : TaskWrites task .backoff) : Resyncs task := by
  cases task with
  | startup => cases h
  | activity a =>
    cases a with
    | sync => trivial
    | poll => exact absurd (@triggers_of_requestWrites .triggerPoll h) (by simp)
    | online player => cases h
    | tell nameForId tell =>
      rcases h with h | ⟨name, gs, _, hop⟩
      · cases h
      · exact (not_backoff_of_commandWrites hop).elim
    | request xApiKey request =>
      rcases h with h | h
      · cases h
      · rw [triggers_of_requestWrites h]
        trivial

section Company
variable {ι : Type} [DecidableEq ι]

def alongside (app : HttpRoutes.App) (stopping : ℕ → Bool) (fuel : ℕ) (tasks : ι → Task) :
    Option ι → Loop Unit
  | none => autotrackTask app.env (apart stopping) fuel
  | some i => (program app (tasks i)).relabel LoopCall.call

theorem frames_task {app : HttpRoutes.App} {task : Task} (h : ¬ Resyncs task) :
    ((program app task).relabel LoopCall.call).Frames Aside := by
  have hframes : (program app task).Frames Aside := by
    refine Coro.Frames.mono (keeps_program task) fun w w' hs => aside_of_steps (hs.mono ?_)
    rintro op hop rfl
    exact h (backoff_of_taskWrites hop)
  unfold Coro.Frames at hframes ⊢
  exact Coro.always_relabel.mpr hframes

theorem cappedDelay_nonneg (n : ℕ) : 0 ≤ cappedDelay n := by
  have hpow : (0 : ℤ) ≤ 2 ^ (n - 1) := by positivity
  have hproduct : 0 ≤ baseDelay * 2 ^ (n - 1) := mul_nonneg (by norm_num [baseDelay]) hpow
  exact le_min hproduct (by norm_num [maxDelay, usPerDay])

/-- From the ninth on, a delay is a week. -/
theorem cappedDelay_week {n : ℕ} (hn : 9 ≤ n) : cappedDelay n = maxDelay := by
  have hpow : (2 : ℤ) ^ 8 ≤ 2 ^ (n - 1) := pow_le_pow_right₀ (by norm_num) (by omega)
  refine min_eq_right ?_
  unfold maxDelay baseDelay usPerDay
  omega

/-- From the ninth miss on each delay is a week. -/
theorem weeks_le_waited (n : ℕ) : ((n : ℤ) - 8) * maxDelay ≤ waited n := by
  have hweek : 0 ≤ maxDelay := by norm_num [maxDelay, usPerDay]
  induction n with
  | zero =>
    show ((0 : ℤ) - 8) * maxDelay ≤ 0
    omega
  | succ n ih =>
    have hdelay := cappedDelay_nonneg (n + 1)
    simp only [waited]
    push_cast
    by_cases hn : 8 ≤ n
    · rw [cappedDelay_week (by omega)]
      linarith
    · have hneg : ((n : ℤ) + 1 - 8) * maxDelay ≤ 0 :=
        mul_nonpos_of_nonpos_of_nonneg (by omega) hweek
      have hwaited : 0 ≤ waited n := by
        clear ih hneg hdelay hn
        induction n with
        | zero => exact le_refl 0
        | succ n ih =>
          have := cappedDelay_nonneg (n + 1)
          simp only [waited]
          omega
      omega

/-- While one resync loop runs next to any tasks that start no resync of their own, and
however the awaits interleave, the misses on record for an id lie apart by all their delays:
`n` of them take the first `n - 1` delays, and so at least `n - 9` weeks. -/
theorem misses_spaced (app : HttpRoutes.App) (stopping : ℕ → Bool) (fuel : ℕ) {tasks : ι → Task}
    (hclock : ∀ s t, s ≤ t → app.env.clock s ≤ app.env.clock t)
    (hothers : ∀ i, ¬ Resyncs (tasks i)) {since : ℤ} {w : World}
    (hbegun : since ≤ app.env.clock w.tick) (hw : Spaced app.env since w)
    (schedule : List (Option ι)) {r : AodbLookupBackoff}
    (hr : r ∈ ((Pool.start w (alongside app stopping fuel tasks)).exec
      schedule).shared.db.lookupBackoff) :
    r.nextRetryAt = r.lastAttemptedAt + cappedDelay r.failureCount ∧
      since + waited (r.failureCount - 1) ≤ r.lastAttemptedAt ∧
      ((r.failureCount : ℤ) - 9) * maxDelay ≤ app.env.clock ((Pool.start w
        (alongside app stopping fuel tasks)).exec schedule).shared.tick - since := by
  have hspaced : Spaced app.env since
      ((Pool.start w (alongside app stopping fuel tasks)).exec schedule).shared := by
    refine @exec_among LoopCall World PyErr Unit (Option ι) _ (alongside app stopping fuel tasks) w
      Aside (fun _ => Orderly app.env since) _ _ (Spaced app.env since) none Aside.refl Aside.trans
      (spaces_autotrackTask hclock stopping fuel hbegun) ?_ (fun _ _ _ hJ h => h.2 hJ)
      (fun _ _ hJ h => (h.orderly hclock).2 hJ) hw schedule
    intro i hi
    cases i with
    | none => exact absurd rfl hi
    | some i => exact frames_task (hothers i)
  generalize ((Pool.start w (alongside app stopping fuel tasks)).exec schedule).shared = u at *
  have hrow := hspaced r.aoid r ((lookup_eq_some u.db.sound.backoff_key).mpr ⟨hr, rfl⟩)
  refine ⟨hrow.next, hrow.spaced, ?_⟩
  have hweeks := weeks_le_waited (r.failureCount - 1)
  have hcounted := hrow.counted
  have hspan := hrow.spaced
  have hpast := hrow.past
  push_cast [Nat.cast_sub hcounted] at hweeks
  have hshift : ((r.failureCount : ℤ) - 1 - 8) * maxDelay =
      ((r.failureCount : ℤ) - 9) * maxDelay := by ring
  linarith

def listedApp : HttpRoutes.App where
  env := { ResyncResult.listing with clock := fun tick => tick * cappedDelay 1 }
  searchPage _ _ _ _ _ := .ok ([], 0)
  bot := none

def listedTurns : List (Option (Fin 1)) := [some 0, some 0] ++ List.replicate 52 none

def afterListed : World :=
  ((Pool.start ResyncResult.listed (alongside listedApp (fun _ => false) 1
    fun _ : Fin 1 => .activity .poll)).exec listedTurns).shared

def secondMiss : AodbLookupBackoff := missed 8 (43 * cappedDelay 1) 2

/-- The catch-up and the turn each find that nobody knows item 8. -/
theorem listed_misses : afterListed.db.lookupBackoff = [secondMiss] := by decide +kernel

theorem listed_misses_spaced :
    secondMiss.nextRetryAt = secondMiss.lastAttemptedAt + cappedDelay secondMiss.failureCount ∧
      0 + waited (secondMiss.failureCount - 1) ≤ secondMiss.lastAttemptedAt ∧
      ((secondMiss.failureCount : ℤ) - 9) * maxDelay ≤
        listedApp.env.clock afterListed.tick - 0 := by
  have hclock : ∀ s t, s ≤ t → listedApp.env.clock s ≤ listedApp.env.clock t := by
    intro s t h
    have hhour : (0 : ℤ) ≤ cappedDelay 1 := cappedDelay_nonneg 1
    exact Int.mul_le_mul_of_nonneg_right (Int.ofNat_le.mpr h) hhour
  have hbegun : 0 ≤ listedApp.env.clock ResyncResult.listed.tick :=
    Int.mul_nonneg (Int.natCast_nonneg _) (cappedDelay_nonneg 1)
  have hnone : Spaced listedApp.env 0 ResyncResult.listed := by
    intro a r hr
    have hempty : ResyncResult.listed.db.lookupBackoff = [] := by decide +kernel
    rw [hempty] at hr
    cases hr
  have hmiss : secondMiss ∈ afterListed.db.lookupBackoff := by
    rw [listed_misses]
    exact List.mem_cons_self
  unfold afterListed at hmiss ⊢
  exact @misses_spaced (Fin 1) _ listedApp (fun _ => false) 1 (fun _ => .activity .poll) hclock
    (fun _ => id) 0 ResyncResult.listed hbegun hnone listedTurns secondMiss hmiss

end Company

end AoMarket.RetrySpacing
