import AoMarket.BookNumbers
import AoMarket.PollRuns

/-!
Which due items a poll cycle advances. The due list holds each item once, and a
turn updates its own item only; the first turn that raises ends the cycle and
leaves the items from there on as they were.
-/

namespace AoMarket.PollProgress

open Coroutine Relational Models Database OrderBook Environment PyNumber MarketRepo SettingsRepo Polling
  Writes ServiceWrites PollTurn PollRuns

variable {env : Env}

/-! The due list -/

theorem cutoff_eq_ok {now duration t : ℤ} (h : cutoff now duration = .ok t) :
    t = now - duration := by
  unfold cutoff timedelta subTime at h
  split at h
  · cases h
  · next d hd =>
    split at h
    · cases h
    · next t' ht =>
      cases h
      grind

theorem window_eq_take {α : Type} {limit : ℤ} {rows kept : List α}
    (h : window limit 0 rows = .ok kept) : kept = rows.take limit.toNat := by
  unfold window at h
  obtain ⟨_, _, h⟩ := except_bind_eq_ok.mp h
  obtain ⟨_, _, h⟩ := except_bind_eq_ok.mp h
  split at h
  · cases h
  · cases h
    rfl

/-- The watch rows polled before the time, the longest ago first. -/
def byAge (env : Env) (tick : ℕ) (db : Db) (polled : ℤ) : List MarketWatch :=
  (env.watchOrder tick (db.watch.filter fun r => polledBefore r polled)).insertionSort
    fun a b => polledNoLater a b

theorem byAge_perm (tick : ℕ) (db : Db) (polled : ℤ) :
    (byAge env tick db polled).Perm (db.watch.filter fun r => polledBefore r polled) :=
  (List.perm_insertionSort (fun a b => polledNoLater a b = true) _).trans
    (env.watchOrder_perm tick (db.watch.filter fun r => polledBefore r polled))

theorem mem_byAge {tick : ℕ} {db : Db} {polled : ℤ} {x : MarketWatch} :
    x ∈ byAge env tick db polled ↔ x ∈ db.watch ∧ polledBefore x polled = true :=
  (byAge_perm tick db polled).mem_iff.trans List.mem_filter

theorem byAge_keyed (tick : ℕ) (db : Db) (polled : ℤ) :
    ((byAge env tick db polled).map MarketWatch.aoid).Nodup := by
  have hkeys : Keyed MarketWatch.aoid (db.watch.filter fun r => polledBefore r polled) :=
    db.sound.watch_key.sublist List.filter_sublist
  exact ((byAge_perm tick db polled).map MarketWatch.aoid).nodup_iff.mpr hkeys

/-- The expired items, whose rows are gone, and the first due ones of the others. -/
structure Selected (env : Env) (w : World) (interval batch : ℤ) (due : Due) (w' : World) : Prop where
  readInterval : readSetting env w.db "PollIntervalMinutes" = .ok (.int interval)
  readBatch : readSetting env w.db "PollBatchSize" = .ok (.int batch)
  now : due.now = env.clock w.tick
  watch : w'.db.watch = deleteRows (fun r => due.expired.contains r.aoid) w.db.watch
  items : ∃ t, due.items =
    (byAge env t w'.db (due.now - interval * usPerMinute)).take batch.toNat

theorem expireStaleWatch_ok {cutoff : ℤ} {w w' : World} {aoids : List ℤ}
    (h : (expireStaleWatch env cutoff).run w = (.ok aoids, w')) :
    w'.db.watch = deleteRows (fun r => aoids.contains r.aoid) w.db.watch := by
  obtain ⟨found, w₁, hselect, h⟩ := Coro.run_bind_eq_ok h
  obtain ⟨_, rfl⟩ := run_query_eq_ok hselect
  split at h
  · obtain ⟨_, w₂, hdelete, h⟩ := Coro.run_bind_eq_ok h
    cases h
    obtain ⟨_, db, note, hf, rfl⟩ := run_statement_eq_ok hdelete
    cases hf
    rfl
  · next hnone =>
    have hempty : found = [] := not_not.mp hnone
    cases h
    rw [hempty]
    simp [deleteRows, World.next]

theorem dueForPoll_ok {polled batchSize : ℤ} {w w' : World} {due : ℕ × List MarketWatch}
    (h : (dueForPoll env polled batchSize).run w = (.ok due, w')) :
    w'.db = w.db ∧ due = (w.tick, (byAge env w.tick w.db polled).take batchSize.toNat) := by
  obtain ⟨hf, rfl⟩ := run_query_eq_ok h
  obtain ⟨items, hwindow, hdue⟩ := except_bind_eq_ok.mp hf
  cases hdue
  exact ⟨rfl, by rw [window_eq_take hwindow]; rfl⟩

/-- Selecting the due items, step by step. -/
theorem selectDue_selects {w w' : World} {due : Due} (h : (selectDue env).run w = (.ok due, w')) :
    ∃ interval batch, Selected env w interval batch due w' := by
  obtain ⟨now, w₁, hclock, h⟩ := Coro.run_bind_eq_ok h
  obtain ⟨retention, w₂, hretention, h⟩ := Coro.run_bind_eq_ok h
  obtain ⟨expire, w₃, hexpire, h⟩ := Coro.run_bind_eq_ok h
  obtain ⟨interval, w₄, hinterval, h⟩ := Coro.run_bind_eq_ok h
  obtain ⟨batch, w₅, hbatch, h⟩ := Coro.run_bind_eq_ok h
  obtain ⟨stale, w₆, hstale, h⟩ := Coro.run_bind_eq_ok h
  obtain ⟨expired, w₇, hexpired, h⟩ := Coro.run_bind_eq_ok h
  obtain ⟨old, w₈, hold, h⟩ := Coro.run_bind_eq_ok h
  obtain ⟨_, w₉, hprune, h⟩ := Coro.run_bind_eq_ok h
  obtain ⟨polled, w₁₀, hpolled, h⟩ := Coro.run_bind_eq_ok h
  obtain ⟨found, w₁₁, hitems, h⟩ := Coro.run_bind_eq_ok h
  cases h
  obtain ⟨hnow, hw₁⟩ := run_external_eq_ok hclock
  have hdb₁ : w₁.db = w.db := by rw [hw₁]; rfl
  have hdb₂ : w₂.db = w₁.db := Keeps.db_of_run (keeps_getInt _) hretention
  have hdb₃ : w₃.db = w₂.db := Keeps.db_of_run (keeps_getInt _) hexpire
  have hdb₄ : w₄.db = w₃.db := Keeps.db_of_run (keeps_getInt _) hinterval
  have hdb₅ : w₅.db = w₄.db := Keeps.db_of_run (keeps_getInt _) hbatch
  have hdb₆ : w₆.db = w₅.db := Keeps.db_of_run (Coro.Frames.ofExcept _) hstale
  have hdb₈ : w₈.db = w₇.db := Keeps.db_of_run (Coro.Frames.ofExcept _) hold
  have hwatch₉ : w₉.db.watch = w₈.db.watch := by
    have hkeeps : Keeps (fun op => ¬ TouchesWatch op) (pruneHistory env old) :=
      keeps_pruneHistory (fun h => h) old
    exact hkeeps.eq_of_run (f := fun db => db.watch)
      (fun _ _ _ _ hop heffect => heffect.watch_eq hop) hprune
  have hdb₁₀ : w₁₀.db = w₉.db := Keeps.db_of_run (Coro.Frames.ofExcept _) hpolled
  obtain ⟨hdb₁₁, hfound⟩ := dueForPoll_ok hitems
  obtain ⟨hreadInterval, _⟩ := getInt_ok hinterval
  obtain ⟨hreadBatch, _⟩ := getInt_ok hbatch
  rw [hdb₃, hdb₂, hdb₁] at hreadInterval
  rw [hdb₄, hdb₃, hdb₂, hdb₁] at hreadBatch
  have hcutoff : polled = now - interval * usPerMinute := by
    rw [Coro.run_ofExcept] at hpolled
    exact cutoff_eq_ok (Prod.mk.inj hpolled).1
  have hwatch := expireStaleWatch_ok hexpired
  rw [hdb₆, hdb₅, hdb₄, hdb₃, hdb₂, hdb₁] at hwatch
  have hkept : w'.db.watch = deleteRows (fun r => expired.contains r.aoid) w.db.watch := by
    rw [hdb₁₁, hdb₁₀, hwatch₉, hdb₈, hwatch]
  rw [hcutoff, ← hdb₁₁] at hfound
  exact ⟨interval, batch, hreadInterval, hreadBatch, (Except.ok.inj hnow).symm, hkept,
    w₁₀.tick, congrArg Prod.snd hfound⟩

/-- The due items of a cycle: tracked, each once, and not polled since the interval began. -/
theorem selectDue_ok {w w' : World} {due : Due} (h : (selectDue env).run w = (.ok due, w')) :
    ∃ interval, readSetting env w.db "PollIntervalMinutes" = .ok (.int interval) ∧
      (due.items.map MarketWatch.aoid).Nodup ∧
      ∀ x ∈ due.items, x ∈ w'.db.watch ∧
        polledBefore x (due.now - interval * usPerMinute) = true := by
  obtain ⟨interval, batch, hselected⟩ := selectDue_selects h
  obtain ⟨t, hitems⟩ := hselected.items
  refine ⟨interval, hselected.readInterval, ?_, fun x hx => ?_⟩
  · rw [hitems]
    exact (byAge_keyed t _ _).sublist ((List.take_sublist _ _).map _)
  · rw [hitems] at hx
    exact mem_byAge.mp (List.mem_of_mem_take hx)

/-! Rows of one item -/

def rowsOf (db : Db) (aoid : ℤ) : List MarketWatch := db.watch.filter fun r => r.aoid == aoid

/-- The writes that leave the item's watch row as it is. -/
def Spares (aoid : ℤ) : Write → Prop
  | .setLastPolled a _ => a ≠ aoid
  | op => ¬ TouchesWatch op

theorem rowsOf_of_effect {aoid : ℤ} {op : Write} {db db' : Db} {note : List Event}
    (hop : Spares aoid op) (h : Effect op db db' note) : rowsOf db' aoid = rowsOf db aoid := by
  by_cases htouches : TouchesWatch op
  · cases op with
    | setLastPolled a ts =>
      have hne : a ≠ aoid := hop
      cases h
      apply filter_updateRows
      · intro r _ hr
        have ha : r.aoid = a := by simpa using hr
        simpa [ha] using hne
      · intro r _ hr
        have ha : r.aoid = a := by simpa using hr
        simpa [ha] using hne
    | _ => exact absurd htouches hop
  · rw [rowsOf, rowsOf, h.watch_eq htouches]

theorem rowsOf_of_keeps {α : Type} {A : Write → Prop} {p : M α} {aoid : ℤ} (h : Keeps A p)
    (hA : ∀ op, A op → Spares aoid op) (w : World) :
    rowsOf (p.run w).2.db aoid = rowsOf w.db aoid :=
  h.run_eq (f := fun db => rowsOf db aoid) (fun op _ _ _ hop => rowsOf_of_effect (hA op hop)) w

/-! Turns and the loop -/

/-- A book whose prices fit makes a row that the server takes. -/
theorem storesSnapshot_fits {watch : MarketWatch} {book : Orders} {db : Db} {t : ℕ}
    (hup : env.dbFault t = none) (htyped : book.WellTyped)
    (hfits : ∀ x ∈ book.orders, BookNumbers.Fits (BookNumbers.price x))
    (hrow : watch.aoid ∈ db.watch.map MarketWatch.aoid) : StoresSnapshot env watch book db t := by
  obtain ⟨s, hs, hmin, hmax, hnumeric⟩ := @BookNumbers.summarize_fits env.py book htyped hfits
    watch.ql
  obtain ⟨hsell, hbuy⟩ := hnumeric env
  exact ⟨s, hs, hup, BookNumbers.bigintColumn_fits hmin, BookNumbers.bigintColumn_fits hmax,
    isOk_iff.mpr ⟨_, hsell⟩, isOk_iff.mpr ⟨_, hbuy⟩, hrow⟩

def Advanced (now aoid : ℤ) (db : Db) : Prop := ∃ r ∈ rowsOf db aoid, r.lastPolled = some now

theorem keeps_watch_examine (now : ℤ) (began : Option ℕ) (watch : MarketWatch) :
    Keeps (fun op => ¬ TouchesWatch op) (examine env now began watch) := by
  apply keeps_examine
  rintro op (rfl | rfl | rfl | ⟨p, rfl | rfl⟩ | rfl) <;> exact fun h => h

theorem run_examine_watch (now : ℤ) (began : Option ℕ) (watch : MarketWatch) (w : World) :
    ((examine env now began watch).run w).2.db.watch = w.db.watch :=
  (keeps_watch_examine now began watch).run_eq (f := fun db => db.watch)
    (fun _ _ _ _ hop heffect => heffect.watch_eq hop) w

/-- A safe turn returns and advances its item. -/
theorem turn_ok {now : ℤ} {began : Option ℕ} {watch : MarketWatch} {w : World} (h : ItemSafe env watch w)
    (hmem : watch ∈ w.db.watch) :
    ∃ updated w', (pollItem env now began watch).run w = (.ok updated, w') ∧
      Advanced now watch.aoid w'.db := by
  have hok := (@pollItem_ok_iff env now began watch w).mpr h
  rcases hrun : (pollItem env now began watch).run w with ⟨e | updated, w'⟩
  · rw [hrun] at hok
    cases hok
  · refine ⟨updated, w', rfl, ?_⟩
    rw [pollItem_eq] at hrun
    obtain ⟨b, w₁, hexamine, hupdate⟩ := Coro.run_bind_eq_ok hrun
    have hwatch : w₁.db.watch = w.db.watch := by
      rw [← @run_examine_watch env now began watch w, hexamine]
    obtain ⟨_, w₂, hlast, hw⟩ := Coro.run_bind_eq_ok hupdate
    cases hw
    rw [run_updateLastPolled] at hlast
    split at hlast
    · cases hlast
    · cases hlast
      refine ⟨{ watch with lastPolled := some now }, ?_, rfl⟩
      simp only [rowsOf, Db.updateWatch, updateRows, hwatch, List.mem_filter, List.mem_map,
        beq_self_eq_true, and_true]
      exact ⟨watch, hmem, by simp⟩

theorem run_pollItems_cons_ok {now : ℤ} {began : Option ℕ} {watch : MarketWatch} {rest : List MarketWatch}
    {w w' : World} {b : Bool} (h : (pollItem env now began watch).run w = (.ok b, w')) :
    ((pollItems env now began (watch :: rest)).run w).2 = ((pollItems env now none rest).run w').2 := by
  rw [pollItems, Coro.run_bind_ok h, Coro.run_bind_pure]

/-- The rows of other items outlast a loop. -/
theorem rowsOf_pollItems {now aoid : ℤ} {began : Option ℕ} {due : List MarketWatch}
    (h : aoid ∉ due.map MarketWatch.aoid) (w : World) :
    rowsOf ((pollItems env now began due).run w).2.db aoid = rowsOf w.db aoid := by
  have hkeeps : Keeps (Spares aoid) (pollItems env now began due) := by
    apply keeps_pollItems
    intro watch hwatch op hop
    rcases hop with (rfl | rfl | rfl | ⟨p, rfl | rfl⟩ | rfl) | rfl
    case inr =>
      intro heq
      exact h (heq ▸ List.mem_map_of_mem hwatch)
    all_goals exact fun ht => ht
  exact rowsOf_of_keeps hkeeps (fun _ => id) w

/-- A row of the table is the one row of its item. -/
theorem advanced_iff_of_mem {now : ℤ} {db : Db} {x : MarketWatch} (h : x ∈ db.watch) :
    Advanced now x.aoid db ↔ x.lastPolled = some now := by
  constructor
  · rintro ⟨r, hr, hlast⟩
    obtain ⟨hmem, haoid⟩ := List.mem_filter.mp hr
    have hkey : r.aoid = x.aoid := by simpa using haoid
    rwa [db.sound.watch_key.eq_of_mem h hmem hkey.symm]
  · intro hlast
    exact ⟨x, List.mem_filter.mpr ⟨h, by simp⟩, hlast⟩

theorem mem_of_rowsOf_eq {db db' : Db} {x : MarketWatch} (h : rowsOf db' x.aoid = rowsOf db x.aoid)
    (hx : x ∈ db.watch) : x ∈ db'.watch := by
  have hmem : x ∈ rowsOf db' x.aoid := by
    rw [h]
    exact List.mem_filter.mpr ⟨hx, by simp⟩
  exact (List.mem_filter.mp hmem).1

/-- A turn leaves the rows of the items after it. -/
theorem rows_after_turn {now : ℤ} {began : Option ℕ} {watch : MarketWatch} {rest : List MarketWatch} {w w' : World}
    {b : Bool} (hwatch : watch.aoid ∉ rest.map MarketWatch.aoid)
    (hrun : (pollItem env now began watch).run w = (.ok b, w')) (hrows : ∀ x ∈ rest, x ∈ w.db.watch) :
    ∀ x ∈ rest, x ∈ w'.db.watch := by
  intro x hx
  have hne : x.aoid ≠ watch.aoid := fun heq => hwatch (heq ▸ List.mem_map_of_mem hx)
  refine mem_of_rowsOf_eq ?_ (hrows x hx)
  have hsame := @rowsOf_pollItems env now x.aoid began [watch] (by simpa using hne) w
  rwa [run_pollItems_cons_ok hrun] at hsame

end AoMarket.PollProgress
