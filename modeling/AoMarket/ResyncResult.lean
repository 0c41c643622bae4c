import AoMarket.HttpWrites
import AoMarket.PollProgress
import AoMarket.Rounding

/-!
What a resync leaves behind when nobody else writes: which ids are ranked, which
of them are asked for, and what becomes of the tracked items and of the backoff
table. The paging loop stops as soon as it has enough ids, and the ids it keeps
are those a full scan of the pages would have kept.
-/

namespace AoMarket.ResyncResult

open Coroutine Relational Models Database Environment PyNumber MarketRepo AodbBackoffRepo
  SettingsRepo AutoTrack Writes ServiceWrites HttpWrites PollProgress

variable {env : Env} {w w' : World}

/-! The number of pages -/

/-- The page count is the one of exact arithmetic. -/
theorem pageCount_eq {count : ℤ} {n : ℕ} (hcount : 1 ≤ count) (h : pageCount count = .ok n) :
    n = (min 50 ⌈(count : ℚ) / 20⌉).toNat := by
  unfold pageCount at h
  split at h
  · next x hx =>
    have hn := Except.ok.inj h
    rw [← hn]
    have hone : (1 : ℚ) ≤ count := by exact_mod_cast hcount
    have hnormal : pow2 (-1022) ≤ (count : ℚ) / 20 := by
      have hle : pow2 (-1022) ≤ pow2 (-5) := Rounding.pow2_mono (by norm_num)
      have hvalue : pow2 (-5) ≤ 1 / 20 := by
        rw [Rounding.pow2_eq]
        norm_num
      linarith
    have hnear := abs_le.mp (Rounding.double_near hnormal hx)
    by_cases hsmall : count ≤ 1000
    · -- a quotient that is no integer keeps its distance from the integer below it
      have hceil : ⌈x⌉ = ⌈(count : ℚ) / 20⌉ := by
        have hbound : (count : ℚ) ≤ 1000 := by exact_mod_cast hsmall
        have hle := Int.le_ceil ((count : ℚ) / 20)
        have hlt := Int.ceil_lt_add_one ((count : ℚ) / 20)
        generalize ⌈(count : ℚ) / 20⌉ = k at hle hlt
        have hk : count ≤ 20 * k ∧ 20 * k < count + 20 := by
          constructor
          · have hscaled : (count : ℚ) ≤ 20 * k := by linarith
            exact_mod_cast hscaled
          · have hscaled : (20 * k : ℚ) < count + 20 := by linarith
            exact_mod_cast hscaled
        have hlow : (20 * k : ℚ) ≤ count + 19 := by
          have hint : 20 * k ≤ count + 19 := by omega
          exact_mod_cast hint
        rw [Int.ceil_eq_iff]
        constructor
        · have hdist : (k : ℚ) - 1 ≤ count / 20 - 1 / 20 := by linarith
          linarith [hnear.1]
        · have hnat : ((k.toNat : ℤ) : ℚ) = k := by
            have hpos : 0 ≤ k := by omega
            exact_mod_cast Int.toNat_of_nonneg hpos
          have hle' := @Rounding.double_le _ x k.toNat ((Rounding.pow2_pos _).trans_le hnormal)
            (by rw [← Int.cast_natCast, hnat]; exact hle) (by omega) hx
          rwa [← Int.cast_natCast, hnat] at hle'
      rw [hceil]
      rfl
    · have hbound : (1001 : ℚ) ≤ count := by
        have hint : 1001 ≤ count := by omega
        exact_mod_cast hint
      have hleft : (50 : ℤ) ≤ ⌈x⌉ := by
        have hx49 : ((49 : ℤ) : ℚ) < x := by
          push_cast
          linarith [hnear.1]
        have := Int.lt_ceil.mpr hx49
        omega
      have hright : (50 : ℤ) ≤ ⌈(count : ℚ) / 20⌉ := by
        have hq49 : ((49 : ℤ) : ℚ) < (count : ℚ) / 20 := by
          push_cast
          linarith
        have := Int.lt_ceil.mpr hq49
        omega
      rw [min_eq_left hright]
      unfold maxAutotrackPages
      rw [min_eq_left hleft]
  · cases h

/-! The ids of the pages -/

/-- The ids on a page, `none` when it is missing or cannot be read. -/
def pageIds (env : Env) (sourceUrl : String) (tick page : ℕ) : Option (List ℤ) :=
  (env.fetchPage tick s!"{rstripSlash sourceUrl}/items/{page}").toOption.join.bind fun html =>
    (extractAoids env.py html).toOption

/-- The ids of the pages one after the other, cut at the first missing or empty page;
the first page is asked for at `tick`. -/
def scan (env : Env) (sourceUrl : String) : List ℕ → ℕ → List ℤ
  | [], _ => []
  | page :: rest, tick =>
    match pageIds env sourceUrl tick page with
    | none => []
    | some found => if found = [] then [] else found ++ scan env sourceUrl rest (tick + 1)

theorem addNew_append (aoids l l' : List ℤ) :
    addNew aoids (l ++ l') = addNew (addNew aoids l) l' := by
  induction l generalizing aoids with
  | nil => rfl
  | cons a rest ih => exact ih _

/-- The ids found so far stay in front. -/
theorem addNew_eq (aoids l : List ℤ) : ∃ rest, addNew aoids l = aoids ++ rest := by
  induction l generalizing aoids with
  | nil => exact ⟨[], (List.append_nil _).symm⟩
  | cons a rest ih =>
    unfold addNew
    by_cases hmem : a ∈ aoids
    · rw [if_pos hmem]
      exact ih aoids
    · rw [if_neg hmem]
      obtain ⟨tail, htail⟩ := ih (aoids ++ [a])
      exact ⟨a :: tail, by rw [htail, List.append_assoc]; rfl⟩

/-- `addNew` keeps the first occurrence of each id. -/
theorem addNew_removeAll (aoids l : List ℤ) :
    addNew aoids l = aoids ++ (l.removeAll aoids).eraseDups := by
  induction l generalizing aoids with
  | nil => simp [addNew, List.removeAll]
  | cons a rest ih =>
    unfold addNew
    by_cases hmem : a ∈ aoids
    · rw [if_pos hmem, ih]
      simp [List.removeAll, hmem]
    · rw [if_neg hmem, ih]
      have hcons : (a :: rest).removeAll aoids = a :: rest.removeAll aoids := by
        simp [List.removeAll, hmem]
      rw [hcons, List.eraseDups_cons, List.append_assoc]
      have hfilter : rest.removeAll (aoids ++ [a]) =
          (rest.removeAll aoids).filter fun b => !b == a := by
        simp only [List.removeAll, List.filter_filter]
        apply List.filter_congr
        intro b _
        by_cases hba : b = a <;> simp [hba]
      rw [hfilter]
      rfl

theorem addNew_nil (l : List ℤ) : addNew [] l = l.eraseDups := by
  rw [addNew_removeAll]
  simp [List.removeAll]

/-- The loop over the pages and the full scan agree on the first `count` ids. -/
theorem fetchPages_ok {sourceUrl : String} {count : ℤ} {pages : List ℕ} {fetched n : ℕ}
    {aoids found : List ℤ}
    (h : (fetchPages env sourceUrl count pages fetched aoids).run w = (.ok (n, found), w')) :
    found.take count.toNat = (addNew aoids (scan env sourceUrl pages w.tick)).take count.toNat := by
  induction pages generalizing fetched aoids w with
  | nil =>
    obtain ⟨hvalue, _⟩ := Prod.mk.inj h
    cases hvalue
    rfl
  | cons page rest ih =>
    obtain ⟨answer, w₁, hfetch, h⟩ := Coro.run_bind_eq_ok h
    obtain ⟨hpage, rfl⟩ := run_external_eq_ok hfetch
    unfold scan pageIds
    cases answer with
    | none =>
      obtain ⟨hvalue, _⟩ := Prod.mk.inj h
      cases hvalue
      rw [hpage]
      rfl
    | some html =>
      obtain ⟨ids, w₂, hextract, h⟩ := Coro.run_bind_eq_ok h
      rw [Coro.run_ofExcept] at hextract
      obtain ⟨hids, rfl⟩ := Prod.mk.inj hextract
      simp only [hpage, Except.toOption, Option.join_some, Option.bind_some, hids]
      by_cases hempty : ids = []
      · rw [if_pos hempty] at h ⊢
        obtain ⟨hvalue, _⟩ := Prod.mk.inj h
        cases hvalue
        rfl
      · rw [if_neg hempty] at h ⊢
        rw [addNew_append]
        by_cases henough : count ≤ (addNew aoids ids).length
        · -- the ids that the remaining pages would add come after the first `count`
          rw [if_pos henough] at h
          obtain ⟨hvalue, _⟩ := Prod.mk.inj h
          obtain ⟨_, rfl⟩ := Prod.mk.inj (Except.ok.inj hvalue)
          obtain ⟨tail, htail⟩ := addNew_eq (addNew aoids ids) (scan env sourceUrl rest (w.tick + 1))
          have hlength : count.toNat ≤ (addNew aoids ids).length := by omega
          rw [htail, List.take_append_of_le_length hlength]
        · rw [if_neg henough] at h
          exact ih h

/-! The lookups -/

def dueIds (db : Db) (now : ℤ) (aoids : List ℤ) : List ℤ :=
  aoids.filter fun a =>
    !db.lookupBackoff.any fun r => r.aoid == a && decide (now < r.nextRetryAt)

/-- The ids that may be asked for are those without an unexpired row, in their order. -/
theorem dueForRetry_ok {aoids due : List ℤ} (haoids : aoids ≠ [])
    (h : (dueForRetry env aoids).run w = (.ok due, w')) :
    due = dueIds w.db (env.clock w.tick) aoids ∧ w'.db = w.db := by
  refine ⟨?_, Keeps.db_of_run (keeps_dueForRetry aoids) h⟩
  unfold dueForRetry at h
  rw [if_neg haoids] at h
  have hclock : (external .clock fun tick => .ok (env.clock tick) : M ℤ).run w =
      (.ok (env.clock w.tick), w.next) := by
    simp [external, World.next]
  rw [Coro.run_bind_ok hclock] at h
  obtain ⟨held, w₁, hquery, h⟩ := Coro.run_bind_eq_ok h
  obtain ⟨hread, _⟩ := run_query_eq_ok hquery
  obtain ⟨_, _, hread⟩ := except_bind_eq_ok.mp hread
  cases hread
  obtain ⟨hdue, _⟩ := Prod.mk.inj h
  rw [← Except.ok.inj hdue]
  unfold dueIds
  apply List.filter_congr
  intro a ha
  apply congrArg not
  rw [Bool.eq_iff_iff, List.contains_iff_mem, List.mem_map, List.any_eq_true]
  constructor
  · rintro ⟨r, hr, rfl⟩
    obtain ⟨hmem, hheld⟩ := List.mem_filter.mp hr
    exact ⟨r, hmem, by simpa using (Bool.and_eq_true_iff.mp hheld).2⟩
  · rintro ⟨r, hr, hheld⟩
    obtain ⟨haoid, hlater⟩ := Bool.and_eq_true_iff.mp hheld
    have heq : r.aoid = a := by simpa using haoid
    refine ⟨r, List.mem_filter.mpr ⟨hr, ?_⟩, heq⟩
    rw [Bool.and_eq_true_iff, List.contains_iff_mem, heq]
    exact ⟨ha, hlater⟩

/-- The service's answers, each given between `start` and `stop`. -/
def AnsweredBy (env : Env) (start stop : ℕ) (answers : List (ℤ × Option Item)) : Prop :=
  ∀ p ∈ answers, ∃ tick, start ≤ tick ∧ tick < stop ∧ env.getItem tick p.1 = .ok p.2

theorem getItem_ok {aoid : ℤ} {item : Option Item}
    (h : (MarketService.getItem env aoid).run w = (.ok item, w')) :
    env.getItem w.tick aoid = .ok item ∧ w'.tick = w.tick + 1 ∧ w'.db = w.db := by
  obtain ⟨hanswer, rfl⟩ := run_external_eq_ok h
  exact ⟨hanswer, rfl, rfl⟩

/-- There is an answer for each id, given while the lookups run. -/
theorem lookupItems_ok {aoids : List ℤ} {answers : List (ℤ × Option Item)}
    (h : (lookupItems env aoids).run w = (.ok answers, w')) :
    answers.map Prod.fst = aoids ∧ w.tick ≤ w'.tick ∧
      AnsweredBy env w.tick w'.tick answers ∧ w'.db = w.db := by
  induction aoids generalizing answers w with
  | nil =>
    obtain ⟨hvalue, rfl⟩ := Prod.mk.inj h
    cases hvalue
    exact ⟨rfl, le_refl _, fun p hp => absurd hp List.not_mem_nil, rfl⟩
  | cons a rest ih =>
    unfold lookupItems at h
    rw [List.mapM_cons] at h
    obtain ⟨p, w₁, hfirst, h⟩ := Coro.run_bind_eq_ok h
    obtain ⟨others, w₂, hrest, h⟩ := Coro.run_bind_eq_ok h
    obtain ⟨hvalue, rfl⟩ := Prod.mk.inj h
    cases hvalue
    obtain ⟨item, w₃, hget, hfirst⟩ := Coro.run_bind_eq_ok hfirst
    obtain ⟨hp, rfl⟩ := Prod.mk.inj hfirst
    cases hp
    obtain ⟨hanswer, htick, hdb⟩ := getItem_ok hget
    obtain ⟨hids, hle, hothers, hdb'⟩ := ih hrest
    refine ⟨congrArg (List.cons a) hids, by omega, ?_, hdb'.trans hdb⟩
    intro p hp
    rcases List.mem_cons.mp hp with rfl | hp
    · exact ⟨w.tick, le_refl _, by omega, hanswer⟩
    · obtain ⟨tick, hlow, hhigh, hanswered⟩ := hothers p hp
      exact ⟨tick, by omega, hhigh, hanswered⟩

/-! The backoff table -/

theorem recordSuccess_ok {aoid : ℤ} (h : (recordSuccess env aoid).run w = (.ok (), w')) (a : ℤ) :
    lookup AodbLookupBackoff.aoid a w'.db.lookupBackoff =
      if a = aoid then none else lookup AodbLookupBackoff.aoid a w.db.lookupBackoff := by
  obtain ⟨_, db, note, hf, rfl⟩ := run_statement_eq_ok h
  obtain ⟨_, _, hf⟩ := except_bind_eq_ok.mp hf
  cases hf
  exact lookup_deleteRows a aoid

/-- One more failure is counted for the id, and nothing else changes in the table. -/
theorem recordFailure_ok {aoid : ℤ} (h : (recordFailure env aoid).run w = (.ok (), w')) :
    (∃ row, lookup AodbLookupBackoff.aoid aoid w'.db.lookupBackoff = some row ∧
        row.failureCount = failures w.db aoid + 1) ∧
      ∀ a, a ≠ aoid → lookup AodbLookupBackoff.aoid a w'.db.lookupBackoff =
        lookup AodbLookupBackoff.aoid a w.db.lookupBackoff := by
  obtain ⟨now, w₁, hclock, h⟩ := Coro.run_bind_eq_ok h
  have hdb₁ : w₁.db = w.db :=
    Keeps.db_of_run (p := (external .clock fun tick => .ok (env.clock tick) : M ℤ))
      (keeps_external fun _ => Silent.nil) hclock
  obtain ⟨existing, w₂, hget, h⟩ := Coro.run_bind_eq_ok h
  obtain ⟨hread, hw₂⟩ := run_query_eq_ok hget
  obtain ⟨_, _, hread⟩ := except_bind_eq_ok.mp hread
  cases hread
  have hdb₂ : w₂.db = w.db := by
    rw [hw₂]
    exact hdb₁
  rw [hdb₁] at h
  dsimp only at h
  split at h
  · obtain ⟨hvalue, _⟩ := Prod.mk.inj h
    cases hvalue
  · next retry _ =>
    obtain ⟨_, db, note, hf, rfl⟩ := run_statement_eq_ok h
    obtain ⟨_, _, hf⟩ := except_bind_eq_ok.mp hf
    obtain ⟨_, hdb⟩ := Prod.mk.inj (Except.ok.inj hf)
    obtain ⟨rfl, _⟩ := Prod.mk.inj hdb
    rw [hdb₂]
    constructor
    · let row : AodbLookupBackoff :=
        { aoid := aoid, failureCount := failures w.db aoid + 1, lastAttemptedAt := now,
          nextRetryAt := retry }
      have hrow := lookup_upsertBackoff w.db row
      exact ⟨row, hrow, rfl⟩
    · exact fun a ha => lookup_upsertBackoff_ne w.db ha

/-- What the answers do to the backoff table. -/
structure Counted (db db' : Db) (answers : List (ℤ × Option Item)) : Prop where
  cleared : ∀ aoid item, (aoid, some item) ∈ answers →
    lookup AodbLookupBackoff.aoid aoid db'.lookupBackoff = none
  raised : ∀ aoid, (aoid, none) ∈ answers →
    ∃ row, lookup AodbLookupBackoff.aoid aoid db'.lookupBackoff = some row ∧
      row.failureCount = failures db aoid + 1
  spared : ∀ aoid, aoid ∉ answers.map Prod.fst →
    lookup AodbLookupBackoff.aoid aoid db'.lookupBackoff =
      lookup AodbLookupBackoff.aoid aoid db.lookupBackoff

theorem failures_eq {db db' : Db} {aoid : ℤ}
    (h : lookup AodbLookupBackoff.aoid aoid db'.lookupBackoff =
      lookup AodbLookupBackoff.aoid aoid db.lookupBackoff) : failures db' aoid = failures db aoid := by
  unfold failures
  rw [h]

def resolvedOf (answers : List (ℤ × Option Item)) : List (ℤ × Item) :=
  answers.filterMap fun p => p.2.map fun item => (p.1, item)

theorem mem_resolvedOf {answers : List (ℤ × Option Item)} {aoid : ℤ} :
    aoid ∈ (resolvedOf answers).map Prod.fst ↔ ∃ item, (aoid, some item) ∈ answers := by
  unfold resolvedOf
  constructor
  · intro h
    obtain ⟨r, hr, rfl⟩ := List.mem_map.mp h
    obtain ⟨p, hp, hitem⟩ := List.mem_filterMap.mp hr
    obtain ⟨item, hsome, rfl⟩ := Option.map_eq_some_iff.mp hitem
    exact ⟨item, by rw [← hsome]; exact hp⟩
  · rintro ⟨item, hmem⟩
    exact List.mem_map.mpr ⟨(aoid, item), List.mem_filterMap.mpr ⟨_, hmem, rfl⟩, rfl⟩

section Counting
variable {db db₁ db' : Db} {rest answers : List (ℤ × Option Item)} {aoid : ℤ}

theorem Counted.nil (db : Db) : Counted db db [] where
  cleared _ _ hmem := absurd hmem List.not_mem_nil
  raised _ hmem := absurd hmem List.not_mem_nil
  spared _ _ := rfl

/-- Writes to other tables keep the counts. -/
theorem Counted.of_eq (h : Counted db db₁ answers) (hsame : db'.lookupBackoff = db₁.lookupBackoff) :
    Counted db db' answers where
  cleared a item hmem := by
    rw [hsame]
    exact h.cleared a item hmem
  raised a hmem := by
    rw [hsame]
    exact h.raised a hmem
  spared a ha := by
    rw [hsame]
    exact h.spared a ha

theorem ne_of_answer (hnew : aoid ∉ rest.map Prod.fst) {a : ℤ} {item : Option Item}
    (hmem : (a, item) ∈ rest) : a ≠ aoid := by
  intro heq
  rw [← heq] at hnew
  exact hnew (List.mem_map.mpr ⟨_, hmem, rfl⟩)

/-- A failure is counted before the rest of the answers. -/
theorem Counted.failed (hnew : aoid ∉ rest.map Prod.fst)
    (hrow : ∃ row, lookup AodbLookupBackoff.aoid aoid db₁.lookupBackoff = some row ∧
      row.failureCount = failures db aoid + 1)
    (hothers : ∀ a, a ≠ aoid → lookup AodbLookupBackoff.aoid a db₁.lookupBackoff =
      lookup AodbLookupBackoff.aoid a db.lookupBackoff)
    (hrest : Counted db₁ db' rest) : Counted db db' ((aoid, none) :: rest) where
  cleared a item hmem := by
    rcases List.mem_cons.mp hmem with heq | hmem
    · cases heq
    · exact hrest.cleared a item hmem
  raised a hmem := by
    rcases List.mem_cons.mp hmem with heq | hmem
    · cases heq
      obtain ⟨row, hrow, hcount⟩ := hrow
      exact ⟨row, (hrest.spared aoid hnew).trans hrow, hcount⟩
    · obtain ⟨row, hrow, hcount⟩ := hrest.raised a hmem
      have hsame := failures_eq (hothers a (ne_of_answer hnew hmem))
      exact ⟨row, hrow, by rw [hcount, hsame]⟩
  spared a ha := by
    rw [List.map_cons, List.mem_cons, not_or] at ha
    exact (hrest.spared a ha.2).trans (hothers a ha.1)

/-- An answer clears the count before the rest. -/
theorem Counted.answered (item : Item) (hnew : aoid ∉ rest.map Prod.fst)
    (hlookup : ∀ a, lookup AodbLookupBackoff.aoid a db₁.lookupBackoff =
      if a = aoid then none else lookup AodbLookupBackoff.aoid a db.lookupBackoff)
    (hrest : Counted db₁ db' rest) : Counted db db' ((aoid, some item) :: rest) where
  cleared a i hmem := by
    rcases List.mem_cons.mp hmem with heq | hmem
    · cases heq
      rw [hrest.spared aoid hnew, hlookup, if_pos rfl]
    · exact hrest.cleared a i hmem
  raised a hmem := by
    rcases List.mem_cons.mp hmem with heq | hmem
    · cases heq
    · obtain ⟨row, hrow, hcount⟩ := hrest.raised a hmem
      have hsame := hlookup a
      rw [if_neg (ne_of_answer hnew hmem)] at hsame
      exact ⟨row, hrow, by rw [hcount, failures_eq hsame]⟩
  spared a ha := by
    rw [List.map_cons, List.mem_cons, not_or] at ha
    rw [hrest.spared a ha.2, hlookup, if_neg ha.1]

end Counting

/-- The ids that were found are resolved, and the misses are counted. -/
theorem recordLookups_ok {answers : List (ℤ × Option Item)} {resolved : List (ℤ × Item)}
    (hnodup : (answers.map Prod.fst).Nodup)
    (h : (recordLookups env answers).run w = (.ok resolved, w')) :
    resolved = resolvedOf answers ∧ Counted w.db w'.db answers := by
  induction answers generalizing resolved w with
  | nil =>
    obtain ⟨hvalue, rfl⟩ := Prod.mk.inj h
    cases hvalue
    exact ⟨rfl, Counted.nil _⟩
  | cons answer rest ih =>
    obtain ⟨aoid, item⟩ := answer
    rw [List.map_cons, List.nodup_cons] at hnodup
    obtain ⟨hnew, hnodup⟩ := hnodup
    cases item with
    | none =>
      obtain ⟨_, w₁, hfailure, h⟩ := Coro.run_bind_eq_ok h
      obtain ⟨hrow, hothers⟩ := recordFailure_ok hfailure
      obtain ⟨rfl, hrest⟩ := ih hnodup h
      exact ⟨rfl, hrest.failed hnew hrow hothers⟩
    | some item =>
      obtain ⟨_, w₁, hsuccess, h⟩ := Coro.run_bind_eq_ok h
      obtain ⟨others, w₂, hrecord, h⟩ := Coro.run_bind_eq_ok h
      obtain ⟨hvalue, rfl⟩ := Prod.mk.inj h
      cases hvalue
      obtain ⟨rfl, hrest⟩ := ih hnodup hrecord
      exact ⟨rfl, hrest.answered item hnew (recordSuccess_ok hsuccess)⟩

/-! The tracked items -/

def Flagged (db : Db) (aoid : ℤ) : Prop := ∃ r ∈ db.watch, r.aoid = aoid ∧ r.autoTracked = true

theorem flagged_iff_lookup {db : Db} {aoid : ℤ} :
    Flagged db aoid ↔
      ∃ r, lookup MarketWatch.aoid aoid db.watch = some r ∧ r.autoTracked = true := by
  constructor
  · rintro ⟨r, hr, haoid, hflag⟩
    exact ⟨r, (lookup_eq_some db.sound.watch_key).mpr ⟨hr, haoid⟩, hflag⟩
  · rintro ⟨r, hr, hflag⟩
    obtain ⟨hmem, haoid⟩ := (lookup_eq_some db.sound.watch_key).mp hr
    exact ⟨r, hmem, haoid, hflag⟩

theorem lookup_updateWatch (db : Db) (p : MarketWatch → Bool) (f : MarketWatch → MarketWatch)
    (hf : ∀ r, (f r).aoid = r.aoid) (aoid : ℤ) :
    lookup MarketWatch.aoid aoid (db.updateWatch p f hf).watch =
      (lookup MarketWatch.aoid aoid db.watch).map fun r => if p r then f r else r :=
  lookup_updateRows aoid p hf

theorem unflagAutotrackNotIn_ok {keep : List ℤ}
    (h : (unflagAutotrackNotIn env keep).run w = (.ok (), w')) (aoid : ℤ) :
    Flagged w'.db aoid ↔ Flagged w.db aoid ∧ aoid ∈ keep := by
  obtain ⟨_, db, note, hf, rfl⟩ := run_statement_eq_ok h
  obtain ⟨_, _, hf⟩ := except_bind_eq_ok.mp hf
  cases hf
  constructor
  · rintro ⟨r, hr, haoid, hflag⟩
    obtain ⟨r₀, hr₀, rfl⟩ := List.mem_map.mp hr
    by_cases hout : (r₀.autoTracked && !keep.contains r₀.aoid) = true
    · rw [if_pos hout] at hflag
      cases hflag
    · rw [if_neg hout] at hflag haoid
      refine ⟨⟨r₀, hr₀, haoid, hflag⟩, ?_⟩
      simpa [hflag, haoid] using hout
  · rintro ⟨⟨r, hr, haoid, hflag⟩, hkeep⟩
    refine ⟨r, List.mem_map.mpr ⟨r, hr, ?_⟩, haoid, hflag⟩
    rw [if_neg]
    simp [haoid, hkeep]

/-- An automatic upsert flags its item and no other. -/
theorem upsertWatch_ok {aoid : ℤ} {name : String} {ql : ℤ} {icon : Option ℤ} {isNew : Bool}
    (h : (upsertWatch env aoid name ql icon true).run w = (.ok isNew, w')) (a : ℤ) :
    Flagged w'.db a ↔ Flagged w.db a ∨ a = aoid := by
  obtain ⟨existing, w₁, hget, h⟩ := Coro.run_bind_eq_ok h
  have hdb₁ : w₁.db = w.db := Keeps.db_of_run (keeps_getWatch aoid) hget
  obtain ⟨_, w₂, hwrite, h⟩ := Coro.run_bind_eq_ok h
  obtain ⟨_, rfl⟩ := Prod.mk.inj h
  rw [← hdb₁, flagged_iff_lookup, flagged_iff_lookup]
  obtain ⟨_, db, note, hf, rfl⟩ := run_statement_eq_ok hwrite
  obtain ⟨_, _, hf⟩ := except_bind_eq_ok.mp hf
  obtain ⟨_, _, hf⟩ := except_bind_eq_ok.mp hf
  obtain ⟨_, _, hf⟩ := except_bind_eq_ok.mp hf
  cases hrow : lookup MarketWatch.aoid aoid w₁.db.watch with
  | none =>
    rw [hrow] at hf
    obtain ⟨db₁, hdb, hf⟩ := except_bind_eq_ok.mp hf
    cases hf
    rw [(Db.insertWatch_eq_some (orRefused_eq_ok hdb)).2]
    simp only
    rw [lookup_insert]
    by_cases ha : a = aoid
    · subst ha
      simp [hrow]
    · simp [ha, Ne.symm ha]
  | some r =>
    rw [hrow] at hf
    cases hf
    rw [lookup_updateWatch]
    have haoid : r.aoid = aoid := ((lookup_eq_some w₁.db.sound.watch_key).mp hrow).2
    by_cases ha : a = aoid
    · subst ha
      simp [hrow, haoid]
    · cases hother : lookup MarketWatch.aoid a w₁.db.watch with
      | none => simp [ha]
      | some r' =>
        have hid : r'.aoid = a := ((lookup_eq_some w₁.db.sound.watch_key).mp hother).2
        simp [ha, hid]

theorem trackResolved_ok {existing : List ℤ} {resolved : List (ℤ × Item)}
    (h : (trackResolved env existing resolved).run w = (.ok (), w')) (a : ℤ) :
    Flagged w'.db a ↔ Flagged w.db a ∨ a ∈ resolved.map Prod.fst := by
  induction resolved generalizing w with
  | nil =>
    obtain ⟨_, rfl⟩ := Prod.mk.inj h
    simp
  | cons r rest ih =>
    obtain ⟨aoid, item⟩ := r
    obtain ⟨isNew, w₁, hupsert, h⟩ := Coro.run_bind_eq_ok h
    have hstep := upsertWatch_ok hupsert a
    have hrest : Flagged w'.db a ↔ Flagged w₁.db a ∨ a ∈ rest.map Prod.fst := by
      dsimp only at h
      split at h
      · obtain ⟨_, w₂, hannounce, h⟩ := Coro.run_bind_eq_ok h
        have hdb : w₂.db = w₁.db := Keeps.db_of_run (keeps_announceTracked _ _) hannounce
        rw [ih h, hdb]
      · exact ih h
    rw [hrest, hstep, List.map_cons, List.mem_cons, or_assoc]

/-! The resync -/

/-- The rows of the tracked items are still there, with their times. -/
def RowsKept (db db' : Db) : Prop :=
  ∀ r ∈ db.watch, ∃ r' ∈ db'.watch, r'.aoid = r.aoid ∧ r'.firstSeen = r.firstSeen ∧
    r'.lastPolled = r.lastPolled

theorem RowsKept.refl (db : Db) : RowsKept db db := fun r hr => ⟨r, hr, rfl, rfl, rfl⟩

theorem RowsKept.trans {a b c : Db} (hab : RowsKept a b) (hbc : RowsKept b c) : RowsKept a c := by
  intro r hr
  obtain ⟨r₁, hr₁, haoid, hfirst, hlast⟩ := hab r hr
  obtain ⟨r₂, hr₂, haoid', hfirst', hlast'⟩ := hbc r₁ hr₁
  exact ⟨r₂, hr₂, haoid'.trans haoid, hfirst'.trans hfirst, hlast'.trans hlast⟩

theorem rowsKept_update {db : Db} {p : MarketWatch → Bool} {f : MarketWatch → MarketWatch}
    {hf : ∀ r, (f r).aoid = r.aoid}
    (h : ∀ r, (f r).firstSeen = r.firstSeen ∧ (f r).lastPolled = r.lastPolled) :
    RowsKept db (db.updateWatch p f hf) := by
  intro r hr
  refine ⟨_, List.mem_map.mpr ⟨r, hr, rfl⟩, ?_⟩
  split
  · exact ⟨hf r, h r⟩
  · exact ⟨rfl, rfl, rfl⟩

/-- A resync keeps the rows of the items tracked, and when they were polled. -/
theorem rowsKept_of_effect {op : Write} {db db' : Db} {note : List Event}
    (h : Effect op db db' note) (hop : SyncWrites op) : RowsKept db db' := by
  by_cases htouches : TouchesWatch op
  · cases h with
    | insertWatch row hnew h =>
      intro r hr
      rw [(Db.insertWatch_eq_some h).2]
      exact ⟨r, List.mem_append_left _ hr, rfl, rfl, rfl⟩
    | updateWatch _ aoid f hf hkeep => exact rowsKept_update hkeep
    | unflag _ p => exact rowsKept_update fun _ => ⟨rfl, rfl⟩
    | setLastPolled | deleteWatch | clearWatch | deleteStale => simp [SyncWrites] at hop
    | _ => exact htouches.elim
  · intro r hr
    rw [h.watch_eq htouches]
    exact ⟨r, hr, rfl, rfl, rfl⟩

/-- What a resync does to the three tables, given the answers it got. -/
structure Resynced (db db' : Db) (answers : List (ℤ × Option Item)) : Prop where
  flagged : ∀ aoid, Flagged db' aoid ↔ ∃ item, (aoid, some item) ∈ answers
  rows : RowsKept db db'
  subscriptions : db'.subscriptions = db.subscriptions
  backoff : Counted db db' answers

/-- The lookups of a run from `w` to `w'` over the ranked ids: the ids without an
unexpired backoff row at the time, with the answers of the item service. -/
def Asked (env : Env) (w w' : World) (ranked : List ℤ) (answers : List (ℤ × Option Item)) : Prop :=
  ∃ tick, w.tick ≤ tick ∧ tick ≤ w'.tick ∧
    (answers.map Prod.fst).Perm (dueIds w.db (env.clock tick) ranked) ∧
    AnsweredBy env w.tick w'.tick answers

theorem AnsweredBy.mono {start stop start' stop' : ℕ} {answers : List (ℤ × Option Item)}
    (h : AnsweredBy env start stop answers) (hstart : start' ≤ start) (hstop : stop ≤ stop') :
    AnsweredBy env start' stop' answers := by
  intro p hp
  obtain ⟨tick, hlow, hhigh, hanswer⟩ := h p hp
  exact ⟨tick, by omega, by omega, hanswer⟩

theorem resolveItems_ok {aoids : List ℤ} {resolved : List (ℤ × Item)} (hnodup : aoids.Nodup)
    (h : (resolveItems env aoids).run w = (.ok resolved, w')) :
    ∃ answers, Asked env w w' aoids answers ∧ resolved = resolvedOf answers ∧
      Counted w.db w'.db answers := by
  unfold resolveItems at h
  by_cases hsome : aoids = []
  · rw [if_pos hsome] at h
    obtain ⟨hvalue, rfl⟩ := Prod.mk.inj h
    cases hvalue
    refine ⟨[], ⟨w.tick, le_refl _, le_refl _, ?_, ?_⟩, rfl, ?_, ?_, fun _ _ => rfl⟩
    · simp [hsome, dueIds]
    · exact fun _ hp => absurd hp List.not_mem_nil
    · exact fun _ _ hmem => absurd hmem List.not_mem_nil
    · exact fun _ hmem => absurd hmem List.not_mem_nil
  rw [if_neg hsome] at h
  obtain ⟨due, w₁, hretry, h⟩ := Coro.run_bind_eq_ok h
  obtain ⟨hdue, hdb₁⟩ := dueForRetry_ok hsome hretry
  obtain ⟨answers, w₂, hlookup, h⟩ := Coro.run_bind_eq_ok h
  obtain ⟨hids, hticks, hanswered, hdb₂⟩ := lookupItems_ok hlookup
  have hperm : (answers.map Prod.fst).Perm (dueIds w.db (env.clock w.tick) aoids) := by
    rw [hids, ← hdue]
    exact env.idOrder_perm due
  have hdistinct : (answers.map Prod.fst).Nodup :=
    hperm.nodup_iff.mpr (hnodup.filter _)
  obtain ⟨rfl, hcounted⟩ := recordLookups_ok hdistinct h
  have hfirst : w.tick ≤ w₁.tick :=
    Keeps.tick_of_run (keeps_dueForRetry (A := fun _ => False) aoids) hretry
  have hlast : w₂.tick ≤ w'.tick :=
    Keeps.tick_of_run (keeps_recordLookups (A := SyncWrites) (Or.inl rfl) answers) h
  refine ⟨answers, ⟨w.tick, le_refl _, ?_, hperm, ?_⟩, rfl, ?_⟩
  · exact hfirst.trans (hticks.trans hlast)
  · exact hanswered.mono hfirst hlast
  · rwa [hdb₂, hdb₁] at hcounted

theorem Asked.mono {w₀ w₁ w₂ : World} {ranked : List ℤ} {answers : List (ℤ × Option Item)}
    (h : Asked env w w₁ ranked answers) (hdb : w.db = w₀.db) (hstart : w₀.tick ≤ w.tick)
    (hstop : w₁.tick ≤ w₂.tick) : Asked env w₀ w₂ ranked answers := by
  obtain ⟨tick, hlow, hhigh, hperm, hanswered⟩ := h
  rw [hdb] at hperm
  exact ⟨tick, by omega, by omega, hperm, hanswered.mono hstart hstop⟩

/-- The part from the ranked ids on flags the resolved ids and counts the others. -/
theorem trackRanked_ok {pagesFetched : ℕ} {aoids : List ℤ} {summary : AutoTrackSummary}
    (hnodup : aoids.Nodup)
    (h : (trackRanked env pagesFetched aoids).run w = (.ok summary, w')) :
    ∃ answers, Asked env w w' aoids answers ∧ Counted w.db w'.db answers ∧
      ∀ aoid, Flagged w'.db aoid ↔ ∃ item, (aoid, some item) ∈ answers := by
  obtain ⟨resolved, w₁, hresolve, h⟩ := Coro.run_bind_eq_ok h
  obtain ⟨answers, hasked, rfl, hcounted⟩ := resolveItems_ok hnodup hresolve
  dsimp only at h
  obtain ⟨_, w₂, hunflag, h⟩ := Coro.run_bind_eq_ok h
  obtain ⟨existing, w₃, hexisting, h⟩ := Coro.run_bind_eq_ok h
  obtain ⟨_, w₄, htrack, h⟩ := Coro.run_bind_eq_ok h
  obtain ⟨now, w₅, hclock, h⟩ := Coro.run_bind_eq_ok h
  obtain ⟨_, w₆, hset, h⟩ := Coro.run_bind_eq_ok h
  obtain ⟨_, w₇, hannounce, h⟩ := Coro.run_bind_eq_ok h
  obtain ⟨_, rfl⟩ := Prod.mk.inj h
  have hkunflag : Keeps (fun op => op = .unflag)
      (unflagAutotrackNotIn env ((resolvedOf answers).map Prod.fst)) :=
    keeps_unflagAutotrackNotIn (A := fun op => op = .unflag) rfl _
  have hktrack : Keeps (fun op => ∃ a, op = .upsertWatch a)
      (trackResolved env existing (resolvedOf answers)) :=
    keeps_trackResolved (fun a => ⟨a, rfl⟩) _ _
  have hkset : Keeps (fun op => op = .setting) (set env "AutoTrackLastSync" (.int (now / 1000000))) :=
    keeps_set (A := fun op => op = .setting) rfl _ _
  have hkclock : ∀ {A : Write → Prop}, Keeps A (external .clock fun tick => .ok (env.clock tick) : M ℤ) :=
    keeps_external fun _ => Silent.nil
  have hdb₃ : w₃.db = w₂.db := Keeps.db_of_run (keeps_existingAoids _) hexisting
  have hdb₅ : w₅.db = w₄.db := Keeps.db_of_run hkclock hclock
  have hdb₇ : w₇.db = w₆.db := Keeps.db_of_run (keeps_announceBackground _) hannounce
  have hticks : w₁.tick ≤ w₇.tick := by
    have h₂ := hkunflag.tick_of_run hunflag
    have h₃ := Keeps.tick_of_run (keeps_existingAoids (A := SyncWrites) _) hexisting
    have h₄ := hktrack.tick_of_run htrack
    have h₅ := Keeps.tick_of_run (hkclock (A := SyncWrites)) hclock
    have h₆ := hkset.tick_of_run hset
    have h₇ := Keeps.tick_of_run (keeps_announceBackground (A := SyncWrites) _) hannounce
    omega
  -- the backoff table is left alone once the answers are recorded
  have hbackoff : w₇.db.lookupBackoff = w₁.db.lookupBackoff := by
    have h₂ := hkunflag.eq_of_run (f := fun db => db.lookupBackoff)
      (fun op _ _ _ hop heffect => heffect.backoff_eq (by simp [hop])) hunflag
    have h₄ := hktrack.eq_of_run (f := fun db => db.lookupBackoff)
      (fun op _ _ _ hop heffect => heffect.backoff_eq (by rintro rfl; simp at hop)) htrack
    have h₆ := hkset.eq_of_run (f := fun db => db.lookupBackoff)
      (fun op _ _ _ hop heffect => heffect.backoff_eq (by simp [hop])) hset
    rw [hdb₇, h₆, hdb₅, h₄, hdb₃, h₂]
  refine ⟨answers, hasked.mono rfl (le_refl _) hticks, hcounted.of_eq hbackoff, ?_⟩
  intro aoid
  have hwatch : w₇.db.watch = w₄.db.watch := by
    have h₆ := hkset.eq_of_run (f := fun db => db.watch)
      (fun op _ _ _ hop heffect => heffect.watch_eq (by simp [hop, TouchesWatch])) hset
    rw [hdb₇, h₆, hdb₅]
  have hflags : Flagged w₇.db aoid ↔ Flagged w₄.db aoid := by
    unfold Flagged
    rw [hwatch]
  rw [hflags, trackResolved_ok htrack, hdb₃, unflagAutotrackNotIn_ok hunflag, ← mem_resolvedOf]
  constructor
  · rintro (⟨_, hmem⟩ | hmem)
    · exact hmem
    · exact hmem
  · exact Or.inr

/-! The whole resync -/

def pagesOf (count : ℤ) : List ℕ :=
  (List.range (min 50 ⌈(count : ℚ) / 20⌉).toNat).map (· + 1)

/-- The first `count` distinct ids of the full scan that starts at `tick`. -/
def ranked (env : Env) (tick : ℕ) (sourceUrl : String) (count : ℤ) : List ℤ :=
  ((scan env sourceUrl (pagesOf count) tick).eraseDups).take count.toNat

theorem nodup_addNew {aoids : List ℤ} (h : aoids.Nodup) (l : List ℤ) : (addNew aoids l).Nodup := by
  induction l generalizing aoids with
  | nil => exact h
  | cons a rest ih =>
    unfold addNew
    by_cases hmem : a ∈ aoids
    · rw [if_pos hmem]
      exact ih h
    · rw [if_neg hmem]
      apply ih
      exact List.Nodup.append h (List.nodup_singleton a) (by simpa using hmem)

theorem nodup_ranked (tick : ℕ) (sourceUrl : String) (count : ℤ) :
    (ranked env tick sourceUrl count).Nodup := by
  unfold ranked
  rw [← addNew_nil]
  exact (nodup_addNew List.nodup_nil _).sublist (List.take_sublist _ _)

/-- A resync that returns a summary flags exactly the ids that resolved among the ranked
ones due, removes no row, keeps the times of the tracked items and counts the failures;
one that returns nothing changes nothing. -/
theorem resync_result {result : Option AutoTrackSummary}
    (h : (syncTopTradedItems env).run w = (.ok result, w')) :
    match result with
    | none => w'.db = w.db
    | some _ => ∃ count sourceUrl answers,
        readSetting env w.db "AutoTrackCount" = .ok (.int count) ∧ 1 ≤ count ∧
        readSetting env w.db "AutoTrackSourceUrl" = .ok (.str sourceUrl) ∧
        Asked env w w' (ranked env (w.tick + 3) (rstripSlash sourceUrl) count) answers ∧
        Resynced w.db w'.db answers := by
  have hkeeps : Keeps SyncWrites (syncTopTradedItems env) := keeps_sync
  have hrows : RowsKept w.db w'.db := by
    have hrun := hkeeps.run_rel RowsKept.refl RowsKept.trans
      (fun op _ _ _ hop heffect => rowsKept_of_effect heffect hop) w
    rwa [h] at hrun
  have hsubscriptions : w'.db.subscriptions = w.db.subscriptions :=
    hkeeps.eq_of_run (f := fun db => db.subscriptions) (fun op _ _ _ hop heffect =>
      heffect.subscriptions_eq (by
        rcases hop with rfl | rfl | ⟨a, rfl⟩ | rfl <;> simp [TouchesSubscriptions])) h
  obtain ⟨enabled, w₁, henabled, h⟩ := Coro.run_bind_eq_ok h
  obtain ⟨_, rfl⟩ := getBool_ok henabled
  cases enabled with
  | false =>
    obtain ⟨hvalue, rfl⟩ := Prod.mk.inj h
    cases hvalue
    exact rfl
  | true =>
    obtain ⟨count, w₂, hcount, h⟩ := Coro.run_bind_eq_ok h
    obtain ⟨hreadCount, rfl⟩ := getInt_ok hcount
    by_cases hsmall : count < 1
    · rw [if_pos hsmall] at h
      obtain ⟨hvalue, rfl⟩ := Prod.mk.inj h
      cases hvalue
      exact rfl
    rw [if_neg hsmall] at h
    obtain ⟨pages, w₃, hpages, h⟩ := Coro.run_bind_eq_ok h
    rw [Coro.run_ofExcept] at hpages
    obtain ⟨hnumber, rfl⟩ := Prod.mk.inj hpages
    obtain ⟨sourceUrl, w₄, hurl, h⟩ := Coro.run_bind_eq_ok h
    obtain ⟨hreadUrl, rfl⟩ := getStr_ok hurl
    obtain ⟨⟨fetched, found⟩, w₅, hfetch, h⟩ := Coro.run_bind_eq_ok h
    have hfetched : w₅.db = w.next.next.next.db :=
      Keeps.db_of_run (keeps_fetchPages _ _ _ _ _) hfetch
    have hdb : w₅.db = w.db := hfetched
    by_cases hnone : fetched = 0
    · simp only [hnone, if_true] at h
      obtain ⟨hvalue, rfl⟩ := Prod.mk.inj h
      cases hvalue
      exact hdb
    simp only [hnone, if_false] at h
    obtain ⟨summary, w₆, htrack, h⟩ := Coro.run_bind_eq_ok h
    obtain ⟨hvalue, rfl⟩ := Prod.mk.inj h
    cases hvalue
    have hranked : found.take count.toNat =
        ranked env (w.tick + 3) (rstripSlash sourceUrl) count := by
      have htake := fetchPages_ok hfetch
      have hpositive : 1 ≤ count := by omega
      rw [addNew_nil, pageCount_eq hpositive hnumber] at htake
      exact htake
    rw [hranked] at htrack
    obtain ⟨answers, hasked, hcounted, hflagged⟩ :=
      trackRanked_ok (nodup_ranked _ _ _) htrack
    have hticks : w.tick ≤ w₅.tick := by
      have htick := Keeps.tick_of_run (keeps_fetchPages (A := SyncWrites) _ _ _ _ _) hfetch
      have hnext : w.next.next.next.tick = w.tick + 3 := rfl
      omega
    refine ⟨count, sourceUrl, answers, hreadCount, by omega, hreadUrl, ?_, ?_⟩
    · exact hasked.mono hdb hticks (le_refl _)
    · rw [hdb] at hcounted
      exact ⟨hflagged, hrows, hsubscriptions, hcounted⟩

def link (aoid : ℤ) : String :=
  let quote := String.singleton (Char.ofNat 34)
  s!"class={quote}item-name{quote} href={quote}/item/{aoid}{quote}"

def listing : Env := { Env.calm with
  fetchPage := fun _ url =>
    .ok (if url = "https://ao-stonks.com/items/1" then some (link 7 ++ link 8 ++ link 7) else none)
  getItem := fun _ aoid => .ok (if aoid = 7 then some ⟨7, "Ring", 10, none⟩ else none) }

def listed : World := ((seedDefaults listing).run { db := .empty }).2

theorem listed_summary : ((syncTopTradedItems listing).run listed).1 = .ok (some ⟨1, 2, 1⟩) := by
  decide +kernel

theorem listed_resynced : ∃ count sourceUrl answers,
    readSetting listing listed.db "AutoTrackCount" = .ok (.int count) ∧ 1 ≤ count ∧
    readSetting listing listed.db "AutoTrackSourceUrl" = .ok (.str sourceUrl) ∧
    Asked listing listed ((syncTopTradedItems listing).run listed).2
      (ranked listing (listed.tick + 3) (rstripSlash sourceUrl) count) answers ∧
    Resynced listed.db ((syncTopTradedItems listing).run listed).2.db answers :=
  @resync_result listing listed _ (some ⟨1, 2, 1⟩) (Prod.ext listed_summary rfl)

end AoMarket.ResyncResult
