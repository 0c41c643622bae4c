import AoMarket.PollProgress
import Mathlib.Algebra.Order.Floor.Semiring

/-!
Poll cycles one after another. A cycle takes the rows that were polled longest ago and
gives them its own time, which puts them behind all that wait; so the rows that were due
at the first cycle are reached a batch at a time, whichever of them the database puts
first.
-/

namespace AoMarket.PollFairness

open Coroutine Relational Models Database Environment PyNumber MarketRepo SettingsRepo Polling
  Writes ServiceWrites PollTurn PollRuns PollProgress

variable {env : Env}

/-! Lists whose marked elements come first -/

section Prefix
variable {α : Type} {p : α → Bool} {l : List α}

/-- What is dropped from the front of such a list is marked, as far as there are marks. -/
theorem length_filter_drop (h : l.Pairwise fun a b => p b = true → p a = true) (n : ℕ) :
    ((l.drop n).filter p).length ≤ (l.filter p).length - n := by
  induction l generalizing n with
  | nil => simp
  | cons a rest ih =>
    obtain ⟨hhead, hrest⟩ := List.pairwise_cons.mp h
    cases n with
    | zero => exact le_refl _
    | succ n =>
      rw [List.drop_succ_cons]
      by_cases ha : p a = true
      · have hstep := ih hrest n
        rw [List.filter_cons_of_pos ha, List.length_cons]
        omega
      · have hnone : (rest.drop n).filter p = [] := by
          apply List.filter_eq_nil_iff.mpr
          intro b hb hpb
          exact ha (hhead b (List.mem_of_mem_drop hb) hpb)
        rw [hnone]
        exact Nat.zero_le _

end Prefix

/-! Waiting rows -/

/-- The rows not polled since the time. -/
def waiting (db : Db) (since : ℤ) : List MarketWatch :=
  db.watch.filter fun r => polledBefore r since

def dueRows (env : Env) (interval : ℤ) (w : World) : List MarketWatch :=
  waiting w.db (env.clock w.tick - interval * usPerMinute)

def earlier (since : ℤ) : Option ℤ → Bool
  | none => true
  | some t => decide (t < since)

theorem polledBefore_eq (r : MarketWatch) (since : ℤ) :
    polledBefore r since = earlier since r.lastPolled := by
  unfold polledBefore earlier
  cases r.lastPolled <;> rfl

theorem polledBefore_mono {r : MarketWatch} {s t : ℤ} (h : s ≤ t)
    (hr : polledBefore r s = true) : polledBefore r t = true := by
  rw [polledBefore_eq] at hr ⊢
  cases hlast : r.lastPolled with
  | none => rfl
  | some time =>
    rw [hlast] at hr
    have hlt : time < s := of_decide_eq_true hr
    have htime : time < t := by omega
    exact decide_eq_true htime

/-- Of two rows the first was polled no later if it waits whenever the second does. -/
theorem polledNoLater_iff {a b : MarketWatch} : polledNoLater a b = true ↔
    ∀ t, polledBefore b t = true → polledBefore a t = true := by
  unfold polledNoLater polledBefore
  cases a.lastPolled with
  | none => simp
  | some s =>
    cases b.lastPolled with
    | none =>
      have hself : ∃ t : ℤ, t ≤ s := ⟨s, le_refl s⟩
      simpa using hself
    | some t =>
      simp only [decide_eq_true_eq]
      constructor
      · intro hst time htime
        omega
      · intro h
        have hnext := h (t + 1) (by omega)
        omega

theorem byAge_sorted (t : ℕ) (db : Db) (polled : ℤ) :
    (byAge env t db polled).Pairwise fun a b => polledNoLater a b = true := by
  have htotal : Std.Total fun a b => polledNoLater a b = true := by
    constructor
    intro a b
    unfold polledNoLater
    cases a.lastPolled with
    | none => exact Or.inl rfl
    | some s =>
      cases b.lastPolled with
      | none => exact Or.inr rfl
      | some t => simpa using le_total s t
  have htrans : IsTrans MarketWatch fun a b => polledNoLater a b = true := by
    constructor
    intro a b c hab hbc
    refine polledNoLater_iff.mpr fun t hc => ?_
    exact polledNoLater_iff.mp hab t (polledNoLater_iff.mp hbc t hc)
  exact List.pairwise_insertionSort _ _

/-- A batch of the due rows takes as many of the waiting ones as it can. -/
theorem waiting_after_batch {t : ℕ} {db : Db} {since polled : ℤ} (h : since ≤ polled) (n : ℕ) :
    (((byAge env t db polled).drop n).filter fun r => polledBefore r since).length ≤
      (waiting db since).length - n := by
  have hpairs : (byAge env t db polled).Pairwise
      fun a b => polledBefore b since = true → polledBefore a since = true :=
    (byAge_sorted t db polled).imp fun hab => polledNoLater_iff.mp hab since
  have hall : ((byAge env t db polled).filter fun r => polledBefore r since).length =
      (waiting db since).length := by
    rw [((byAge_perm t db polled).filter _).length_eq, List.filter_filter]
    congr 1
    apply List.filter_congr
    intro r _
    have hmono := @polledBefore_mono r since polled h
    cases hsince : polledBefore r since with
    | false => simp
    | true => simp [hmono hsince]
  rw [← hall]
  exact length_filter_drop hpairs n

/-! One cycle -/

/-- A cycle that returns selects, goes through all turns and announces. -/
theorem run_pollMarket_ok {w w' : World} {summary : PollSummary}
    (h : (pollMarket env).run w = (.ok summary, w')) :
    ∃ due w₁ updated w₂, (selectDue env).run w = (.ok due, w₁) ∧
      (pollItems env due.now (some due.began) due.items).run w₁ = (.ok updated, w₂) ∧
      w'.db = w₂.db := by
  obtain ⟨due, w₁, hselect, h⟩ := Coro.run_bind_eq_ok h
  obtain ⟨updated, w₂, hloop, h⟩ := Coro.run_bind_eq_ok h
  obtain ⟨_, w₃, hannounce, h⟩ := Coro.run_bind_eq_ok h
  cases h
  exact ⟨due, w₁, updated, w₂, hselect, hloop,
    Keeps.db_of_run (keeps_announceCycle due updated) hannounce⟩

/-- A loop that returns gives every item the cycle's time. -/
theorem items_advanced {now : ℤ} {began : Option ℕ} {due : List MarketWatch} {w w' : World} {updated : ℕ}
    (hnodup : (due.map MarketWatch.aoid).Nodup) (hrows : ∀ x ∈ due, x ∈ w.db.watch)
    (h : (pollItems env now began due).run w = (.ok updated, w')) :
    ∀ x ∈ due, Advanced now x.aoid w'.db := by
  induction due generalizing began w updated with
  | nil => exact fun x hx => absurd hx List.not_mem_nil
  | cons watch rest ih =>
    obtain ⟨hwatch, hnodup⟩ := List.nodup_cons.mp hnodup
    obtain ⟨b, w₁, hturn, hloop⟩ := Coro.run_bind_eq_ok h
    obtain ⟨others, w₂, hothers, hw⟩ := Coro.run_bind_eq_ok hloop
    cases hw
    have hsafe : ItemSafe env watch w := by
      apply pollItem_ok_iff.mp
      rw [hturn]
      rfl
    obtain ⟨b', w₁', hturn', hadvanced⟩ := @turn_ok env now began watch w hsafe
      (hrows watch List.mem_cons_self)
    rw [hturn] at hturn'
    cases hturn'
    have hrest : ∀ x ∈ rest, x ∈ w₁.db.watch :=
      rows_after_turn hwatch hturn fun x hx => hrows x (List.mem_cons_of_mem watch hx)
    intro x hx
    rcases List.mem_cons.mp hx with rfl | hx
    · have hsame := @rowsOf_pollItems env now x.aoid none rest hwatch w₁
      rw [hothers] at hsame
      rwa [Advanced, hsame]
    · exact ih hnodup hrest hothers x hx

/-- In the cycle starting in the world the item expired. -/
def Expires (env : Env) (w : World) (aoid : ℤ) : Prop :=
  ∃ due w', (selectDue env).run w = (.ok due, w') ∧ aoid ∈ due.expired

def Polls (env : Env) (w : World) (aoid : ℤ) : Prop :=
  ∃ due w', (selectDue env).run w = (.ok due, w') ∧ aoid ∈ due.items.map MarketWatch.aoid ∧
    Advanced due.now aoid ((pollMarket env).run w).2.db

section Cycle
variable {w w' : World} {summary : PollSummary} {interval batch : ℤ}

/-- A row the cycle neither expires nor polls stays as it is. -/
theorem row_kept (h : (pollMarket env).run w = (.ok summary, w')) {r : MarketWatch}
    (hr : r ∈ w.db.watch) (hexpires : ¬ Expires env w r.aoid) (hpolls : ¬ Polls env w r.aoid) :
    r ∈ w'.db.watch := by
  obtain ⟨due, w₁, updated, w₂, hselect, hloop, hdb⟩ := run_pollMarket_ok h
  obtain ⟨interval, batch, hselected⟩ := selectDue_selects hselect
  obtain ⟨_, _, hnodup, hdue⟩ := selectDue_ok hselect
  have hunexpired : r.aoid ∉ due.expired := fun hmem => hexpires ⟨due, w₁, hselect, hmem⟩
  have hkept : r ∈ w₁.db.watch := by
    rw [hselected.watch]
    exact mem_deleteRows.mpr ⟨hr, by simpa using hunexpired⟩
  have hturnless : r.aoid ∉ due.items.map MarketWatch.aoid := by
    intro hmem
    apply hpolls
    refine ⟨due, w₁, hselect, hmem, ?_⟩
    obtain ⟨x, hx, haoid⟩ := List.mem_map.mp hmem
    rw [h, hdb, ← haoid]
    exact items_advanced hnodup (fun x hx => (hdue x hx).1) hloop x hx
  have hsame := @rowsOf_pollItems env due.now r.aoid (some due.began) due.items hturnless w₁
  rw [hloop] at hsame
  rw [hdb]
  exact mem_of_rowsOf_eq hsame hkept

/-- A cycle serves a batch of the rows that wait since a time before its own interval. -/
theorem waiting_after_cycle (h : (pollMarket env).run w = (.ok summary, w'))
    (hinterval : readSetting env w.db "PollIntervalMinutes" = .ok (.int interval))
    (hbatch : readSetting env w.db "PollBatchSize" = .ok (.int batch)) (hnonneg : 0 ≤ interval)
    {since : ℤ} (hsince : since ≤ env.clock w.tick - interval * usPerMinute) :
    (waiting w'.db since).length ≤ (waiting w.db since).length - batch.toNat := by
  obtain ⟨due, w₁, updated, w₂, hselect, hloop, hdb⟩ := run_pollMarket_ok h
  obtain ⟨interval', batch', hselected⟩ := selectDue_selects hselect
  obtain ⟨_, _, hnodup, hdue⟩ := selectDue_ok hselect
  have hread := hselected.readInterval
  rw [hinterval] at hread
  cases hread
  have hreadBatch := hselected.readBatch
  rw [hbatch] at hreadBatch
  cases hreadBatch
  obtain ⟨t, hitems⟩ := hselected.items
  rw [hselected.now] at hitems
  have hserved : ∀ r ∈ w'.db.watch, polledBefore r since = true →
      r.aoid ∉ due.items.map MarketWatch.aoid := by
    intro r hr hbefore hmem
    obtain ⟨x, hx, haoid⟩ := List.mem_map.mp hmem
    have hadvanced := items_advanced hnodup (fun x hx => (hdue x hx).1) hloop x hx
    rw [haoid, hselected.now, ← hdb] at hadvanced
    have hlast := (advanced_iff_of_mem hr).mp hadvanced
    rw [polledBefore, hlast] at hbefore
    have hearly : env.clock w.tick < since := by simpa using hbefore
    have hminutes : 0 ≤ interval * usPerMinute := Int.mul_nonneg hnonneg (by decide)
    omega
  have hsub : waiting w'.db since ⊆
      ((byAge env t w₁.db (env.clock w.tick - interval * usPerMinute)).drop batch.toNat).filter
        fun r => polledBefore r since := by
    intro r hr
    obtain ⟨hmem, hbefore⟩ := List.mem_filter.mp hr
    have hturnless := hserved r hmem hbefore
    have hsame := @rowsOf_pollItems env due.now r.aoid (some due.began) due.items hturnless w₁
    rw [hloop] at hsame
    rw [hdb] at hmem
    have hfirst : r ∈ w₁.db.watch := mem_of_rowsOf_eq hsame.symm hmem
    have hall : r ∈ byAge env t w₁.db (env.clock w.tick - interval * usPerMinute) :=
      mem_byAge.mpr ⟨hfirst, polledBefore_mono hsince hbefore⟩
    rw [← List.take_append_drop batch.toNat (byAge env t w₁.db _), ← hitems] at hall
    rcases List.mem_append.mp hall with hitem | hrest
    · exact absurd (List.mem_map_of_mem hitem) hturnless
    · exact List.mem_filter.mpr ⟨hrest, hbefore⟩
  have hdistinct : (waiting w'.db since).Nodup :=
    (w'.db.sound.watch_key.of_map MarketWatch.aoid).sublist List.filter_sublist
  have hfewer : (waiting w₁.db since).length ≤ (waiting w.db since).length := by
    unfold waiting
    rw [hselected.watch]
    exact ((deleteRows_sublist _ _).filter _).length_le
  have hleft := (List.subperm_of_subset hdistinct hsub).length_le
  have hbatched := @waiting_after_batch env t w₁.db since _ hsince batch.toNat
  omega

end Cycle

/-! Cycles one after another -/

/-- What the poll loop goes by: the items and when each was polled. -/
def marks (db : Db) : List (ℤ × Option ℤ) := db.watch.map fun r => (r.aoid, r.lastPolled)

/-- `k` cycles, each starting in its world, none of them earlier than the first. All of
them return, under the same interval and batch size, and between two of them no item is
added, removed or polled. -/
structure Cycles (env : Env) (interval : ℤ) (batch : ℕ) (w : ℕ → World) (k : ℕ) : Prop where
  completes : ∀ i < k, ∃ summary w', (pollMarket env).run (w i) = (.ok summary, w') ∧
    (marks (w (i + 1)).db).Perm (marks w'.db)
  readInterval : ∀ i < k, readSetting env (w i).db "PollIntervalMinutes" = .ok (.int interval)
  readBatch : ∀ i < k, readSetting env (w i).db "PollBatchSize" = .ok (.int batch)
  later : ∀ i < k, env.clock (w 0).tick ≤ env.clock (w i).tick

/-- In one of the first cycles the item was polled or expired. -/
def Reached (env : Env) (w : ℕ → World) (k : ℕ) (aoid : ℤ) : Prop :=
  ∃ i < k, Polls env (w i) aoid ∨ Expires env (w i) aoid

section Runs
variable {interval : ℤ} {batch k : ℕ} {w : ℕ → World}

theorem Cycles.of_le {j : ℕ} (h : Cycles env interval batch w k) (hj : j ≤ k) :
    Cycles env interval batch w j where
  completes i hi := h.completes i (by omega)
  readInterval i hi := h.readInterval i (by omega)
  readBatch i hi := h.readBatch i (by omega)
  later i hi := h.later i (by omega)

theorem waiting_length (db : Db) (since : ℤ) : (waiting db since).length =
    ((marks db).filter fun m => earlier since m.2).length := by
  unfold waiting marks
  rw [List.filter_map, List.length_map]
  exact congrArg List.length (List.filter_congr fun r _ => polledBefore_eq r since)

/-- Only the marks count. -/
theorem waiting_length_of_marks {db db' : Db} (h : (marks db').Perm (marks db)) (since : ℤ) :
    (waiting db' since).length = (waiting db since).length := by
  rw [waiting_length, waiting_length]
  exact (h.filter _).length_eq

/-- Each cycle takes a batch off the rows due at the first one. -/
theorem waiting_after_cycles (h : Cycles env interval batch w k) (hnonneg : 0 ≤ interval) :
    (waiting (w k).db (env.clock (w 0).tick - interval * usPerMinute)).length ≤
      (dueRows env interval (w 0)).length - k * batch := by
  induction k with
  | zero => simp [dueRows]
  | succ k ih =>
    have hbefore := ih (h.of_le (Nat.le_succ k))
    obtain ⟨summary, w', hrun, hmarks⟩ := h.completes k (Nat.lt_succ_self k)
    have hlater := h.later k (Nat.lt_succ_self k)
    have hcycle := waiting_after_cycle hrun (h.readInterval k (Nat.lt_succ_self k))
      (h.readBatch k (Nat.lt_succ_self k)) hnonneg
      (sub_le_sub_right hlater (interval * usPerMinute))
    rw [waiting_length_of_marks hmarks]
    rw [Int.toNat_natCast] at hcycle
    have hproduct : (k + 1) * batch = k * batch + batch := Nat.succ_mul k batch
    omega

/-- An item no cycle reached is still in the table, with the mark it had at first. -/
theorem mark_kept (h : Cycles env interval batch w k) {r : MarketWatch} (hr : r ∈ (w 0).db.watch)
    (hreached : ¬ Reached env w k r.aoid) : (r.aoid, r.lastPolled) ∈ marks (w k).db := by
  induction k with
  | zero => exact List.mem_map_of_mem hr
  | succ k ih =>
    have hbefore := ih (h.of_le (Nat.le_succ k)) fun ⟨i, hi, hcase⟩ =>
      hreached ⟨i, Nat.lt_succ_of_lt hi, hcase⟩
    obtain ⟨x, hx, hmark⟩ := List.mem_map.mp hbefore
    obtain ⟨haoid, hlast⟩ := Prod.mk.inj hmark
    obtain ⟨summary, w', hrun, hmarks⟩ := h.completes k (Nat.lt_succ_self k)
    have hexpires : ¬ Expires env (w k) x.aoid := by
      rw [haoid]
      exact fun hcase => hreached ⟨k, Nat.lt_succ_self k, Or.inr hcase⟩
    have hpolls : ¬ Polls env (w k) x.aoid := by
      rw [haoid]
      exact fun hcase => hreached ⟨k, Nat.lt_succ_self k, Or.inl hcase⟩
    have hkept : (x.aoid, x.lastPolled) ∈ marks w'.db :=
      List.mem_map_of_mem (row_kept hrun hx hexpires hpolls)
    rw [haoid, hlast] at hkept
    exact hmarks.mem_iff.mpr hkept

/-- The rows that were due and that no cycle reached still wait. -/
theorem missed_length (h : Cycles env interval batch w k) (hnonneg : 0 ≤ interval)
    {missed : List MarketWatch} (hsub : missed.Sublist (dueRows env interval (w 0)))
    (hmissed : ∀ r ∈ missed, ¬ Reached env w k r.aoid) :
    missed.length ≤ (dueRows env interval (w 0)).length - k * batch := by
  have hkeyed : (missed.map MarketWatch.aoid).Nodup :=
    (w 0).db.sound.watch_key.sublist (hsub.trans List.filter_sublist)
  have hdistinct : (missed.map fun r => (r.aoid, r.lastPolled)).Nodup := by
    apply List.Nodup.of_map Prod.fst
    rw [List.map_map]
    exact hkeyed
  have hstill : (missed.map fun r => (r.aoid, r.lastPolled)) ⊆ (marks (w k).db).filter
      fun m => earlier (env.clock (w 0).tick - interval * usPerMinute) m.2 := by
    intro m hm
    obtain ⟨r, hr, rfl⟩ := List.mem_map.mp hm
    obtain ⟨hrow, hdue⟩ := List.mem_filter.mp (hsub.subset hr)
    refine List.mem_filter.mpr ⟨mark_kept h hrow (hmissed r hr), ?_⟩
    rwa [← polledBefore_eq]
  have hlength := (List.subperm_of_subset hdistinct hstill).length_le
  rw [List.length_map, ← waiting_length] at hlength
  exact hlength.trans (waiting_after_cycles h hnonneg)

/-- After `k` cycles at least `k` batches of the rows due at the first one have been polled
or have expired, or all of them if they are fewer; so each of them is within as many cycles
as it takes to hold them all. -/
theorem due_rows_reached (h : Cycles env interval batch w k) (hnonneg : 0 ≤ interval)
    (hbatch : 1 ≤ batch) :
    (∃ reached : List MarketWatch, reached.Sublist (dueRows env interval (w 0)) ∧
      (∀ r ∈ reached, Reached env w k r.aoid) ∧
      min (k * batch) (dueRows env interval (w 0)).length ≤ reached.length) ∧
    (⌈((dueRows env interval (w 0)).length : ℚ) / batch⌉₊ ≤ k →
      ∀ r ∈ dueRows env interval (w 0),
        Reached env w ⌈((dueRows env interval (w 0)).length : ℚ) / batch⌉₊ r.aoid) := by
  classical
  constructor
  · refine ⟨(dueRows env interval (w 0)).filter fun r => decide (Reached env w k r.aoid),
      List.filter_sublist, ?_, ?_⟩
    · intro r hr
      exact of_decide_eq_true (List.mem_filter.mp hr).2
    · have hunreached : ∀ r ∈ (dueRows env interval (w 0)).filter
          (fun r => !decide (Reached env w k r.aoid)), ¬ Reached env w k r.aoid := by
        intro r hr
        simpa using (List.mem_filter.mp hr).2
      have hmissed := missed_length h hnonneg List.filter_sublist hunreached
      have hsplit := List.length_eq_length_filter_add (l := dueRows env interval (w 0))
        fun r => decide (Reached env w k r.aoid)
      omega
  · intro hk r hr
    by_contra hreached
    have henough : (dueRows env interval (w 0)).length ≤
        ⌈((dueRows env interval (w 0)).length : ℚ) / batch⌉₊ * batch := by
      have hpos : (0 : ℚ) < batch := by exact_mod_cast hbatch
      have hceil := Nat.le_ceil (((dueRows env interval (w 0)).length : ℚ) / batch)
      rw [div_le_iff₀ hpos] at hceil
      exact_mod_cast hceil
    have hmissed := missed_length (h.of_le hk) hnonneg (List.singleton_sublist.mpr hr) (by
      intro x hx
      rwa [List.mem_singleton.mp hx])
    rw [List.length_singleton] at hmissed
    omega

end Runs

/-! Two items and a batch of one -/

def ticking : Env := { Env.calm with clock := fun t => t }

def oneAtATime : Db where
  toTables :=
    { watch := [⟨1, "Ring", 1, none, 0, none, false⟩, ⟨2, "Belt", 1, none, 0, none, false⟩]
      settings := [⟨"HistoryRetentionDays", "30", .int⟩, ⟨"WatchExpireDays", "30", .int⟩,
        ⟨"PollIntervalMinutes", "60", .int⟩, ⟨"PollBatchSize", "1", .int⟩,
        ⟨"LogBackgroundToPrivateChannel", "false", .bool⟩] }
  sound := by constructor <;> simp [Keyed, Refers]

/-- The worlds in which cycles start that follow each other at once. -/
def backToBack : ℕ → World
  | 0 => { db := oneAtATime }
  | i + 1 => ((pollMarket ticking).run (backToBack i)).2

theorem backToBack_cycles : Cycles ticking 60 1 backToBack 2 := by
  have htwo : ∀ i < 2, i = 0 ∨ i = 1 := by omega
  have hok : ∀ i < 2, ((pollMarket ticking).run (backToBack i)).1.isOk = true := by
    intro i hi
    rcases htwo i hi with rfl | rfl
    · rfl
    · rfl
  constructor
  · intro i hi
    obtain ⟨summary, hsummary⟩ := isOk_iff.mp (hok i hi)
    exact ⟨summary, backToBack (i + 1), Prod.ext hsummary rfl, List.Perm.refl _⟩
  · intro i hi
    rcases htwo i hi with rfl | rfl
    · rfl
    · rfl
  · intro i hi
    rcases htwo i hi with rfl | rfl
    · rfl
    · rfl
  · intro i _
    show ((0 : ℕ) : ℤ) ≤ ((backToBack i).tick : ℤ)
    omega

theorem both_reached_in_two :
    (dueRows ticking 60 (backToBack 0)).length = 2 ∧
      (∃ reached : List MarketWatch, reached.Sublist (dueRows ticking 60 (backToBack 0)) ∧
        (∀ r ∈ reached, Reached ticking backToBack 2 r.aoid) ∧
        min (2 * 1) (dueRows ticking 60 (backToBack 0)).length ≤ reached.length) ∧
      (⌈((dueRows ticking 60 (backToBack 0)).length : ℚ) / (1 : ℕ)⌉₊ ≤ 2 →
        ∀ r ∈ dueRows ticking 60 (backToBack 0), Reached ticking backToBack
          ⌈((dueRows ticking 60 (backToBack 0)).length : ℚ) / (1 : ℕ)⌉₊ r.aoid) :=
  ⟨rfl, due_rows_reached backToBack_cycles (by decide) (by decide)⟩

end AoMarket.PollFairness
