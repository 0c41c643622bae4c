import AoMarket.ResyncResult

/-!
A resync that raises. The lookups leave the flags alone; from the bulk unflag on
each call commits by itself, and a failure leaves the flags as far as the run got.
The definitions read off the environment which rows are flagged before a call fails.
-/

namespace AoMarket.ResyncFailure

open Coroutine Outcomes Relational Models Database Environment MarketRepo MarketService
  SettingsRepo AutoTrack Writes ServiceWrites ResyncResult

variable {env : Env}

/-! The two parts of a resync -/

structure Resolution where
  pagesFetched : ℕ
  rankedCount : ℕ
  resolved : List (ℤ × Item)

def Resolution.keys (r : Resolution) : List ℤ := r.resolved.map Prod.fst

def Resolution.message (r : Resolution) : String :=
  s!"Resync complete: {r.pagesFetched} page(s) fetched, {r.rankedCount} ranked AOID(s) found, " ++
    s!"{r.resolved.length} resolved against aodb-api and now auto-tracked"

def resolving (env : Env) : M (Option Resolution) := do
  if !(← getBool env "AutoTrackEnabled") then
    return none
  let count ← getInt env "AutoTrackCount"
  if count < 1 then
    return none
  let pages ← Coro.ofExcept (pageCount count)
  let sourceUrl := rstripSlash (← getStr env "AutoTrackSourceUrl")
  let (pagesFetched, aoids) ←
    fetchPages env sourceUrl count ((List.range pages).map (· + 1)) 0 []
  if pagesFetched = 0 then
    return none
  let resolved ← resolveItems env (aoids.take count.toNat)
  return some ⟨pagesFetched, (aoids.take count.toNat).length, resolved⟩

def conclude (env : Env) (r : Resolution) : M AutoTrackSummary := do
  let now ← external .clock fun tick => .ok (env.clock tick)
  set env "AutoTrackLastSync" (.int (now / 1000000))
  announceBackground env r.message
  return { pagesFetched := r.pagesFetched, rankedCount := r.rankedCount,
           resolvedCount := r.resolved.length }

def tracking (env : Env) (r : Resolution) : M AutoTrackSummary := do
  unflagAutotrackNotIn env r.keys
  let existing ← existingAoids env r.keys
  trackResolved env existing r.resolved
  conclude env r

def trackingOf (env : Env) : Option Resolution → M (Option AutoTrackSummary)
  | none => pure none
  | some r => do
    let summary ← tracking env r
    return some summary

theorem trackRanked_eq (pagesFetched : ℕ) (aoids : List ℤ) :
    trackRanked env pagesFetched aoids = (do
      let resolved ← resolveItems env aoids
      tracking env ⟨pagesFetched, aoids.length, resolved⟩) := rfl

/-- The resync in two parts: what is found out before any flag is touched, and the rest. -/
theorem syncTopTradedItems_eq :
    syncTopTradedItems env = (resolving env >>= trackingOf env) := by
  unfold syncTopTradedItems resolving
  rw [Coro.bind_assoc]
  congr 1
  funext enabled
  cases enabled with
  | false => rfl
  | true =>
    simp only [Bool.not_true, Bool.false_eq_true, if_false]
    rw [Coro.bind_assoc]
    congr 1
    funext count
    by_cases hsmall : count < 1
    · simp [hsmall, trackingOf]
    · simp only [hsmall, if_false]
      rw [Coro.bind_assoc]
      congr 1
      funext pages
      rw [Coro.bind_assoc]
      congr 1
      funext sourceUrl
      rw [Coro.bind_assoc]
      congr 1
      funext found
      obtain ⟨pagesFetched, aoids⟩ := found
      by_cases hnone : pagesFetched = 0
      · simp [hnone, trackingOf]
      · simp only [hnone, if_false]
        rw [trackRanked_eq, Coro.bind_assoc, Coro.bind_assoc]
        rfl

/-! Which calls go through -/

/-- The tick after a message to the private channel, if the call goes through. -/
def sendEnd (env : Env) (message : String) (t : ℕ) : Option ℕ :=
  match env.chat.sendPrivgroup with
  | none => some t
  | some send => if (send t message).isOk then some (t + 1) else none

/-- The tick after a background announcement, if its calls go through. -/
def announceEnd (env : Env) (db : Db) (message : String) (t : ℕ) : Option ℕ :=
  if env.dbFault t = none then
    match readSetting env db "LogBackgroundToPrivateChannel" with
    | .ok (.bool logged) => if logged then sendEnd env s!"Market: {message}" (t + 1) else some (t + 1)
    | _ => none
  else none

/-- The row of a resolved item is taken by the two calls that begin at the tick. -/
def Takes (env : Env) (aoid : ℤ) (item : Item) (t : ℕ) : Prop :=
  env.dbFault t = none ∧ (int8 aoid).isOk ∧ env.dbFault (t + 1) = none ∧
    (text env item.name).isOk ∧ (int4 item.ql).isOk ∧ (int4 (item.icon.getD 0)).isOk

instance (aoid : ℤ) (item : Item) (t : ℕ) : Decidable (Takes env aoid item t) := by
  unfold Takes
  infer_instance

section Loop
variable (env) (db : Db) (existing : List ℤ)

/-- The ids the loop flags, and the tick after it if no call fails. -/
def reach : List (ℤ × Item) → ℕ → List ℤ × Option ℕ
  | [], t => ([], some t)
  | (aoid, item) :: rest, t =>
    if Takes env aoid item t then
      if existing.contains aoid then
        (aoid :: (reach rest (t + 2)).1, (reach rest (t + 2)).2)
      else
        match announceEnd env db s!"{item.name} added to auto-tracking" (t + 2) with
        | some t' => (aoid :: (reach rest t').1, (reach rest t').2)
        | none => ([aoid], none)
    else ([], none)

end Loop

/-- The server takes the time of the resync in the two calls that begin at the tick. -/
def Stamps (env : Env) (db : Db) (now : ℤ) (t : ℕ) : Prop :=
  env.dbFault t = none ∧ env.dbFault (t + 1) = none ∧
    ∃ row, lookup Setting.key "AutoTrackLastSync" db.settings = some row ∧
      ∃ value, serialize env.py (.int now) row.valueType = .ok value ∧ (text env value).isOk

/-- The calls after the loop go through from the tick on. -/
def Concludes (env : Env) (db : Db) (message : String) (t : ℕ) : Prop :=
  Stamps env db (env.clock t / 1000000) (t + 1) ∧ (announceEnd env db message (t + 3)).isSome

/-- The server takes the bulk unflag at the tick. -/
def Unflags (env : Env) (keys : List ℤ) (t : ℕ) : Prop :=
  env.dbFault t = none ∧ (keys.forM int8).isOk

/-- The rows of the resolved items from the select of the existing ids on. -/
def retracked (env : Env) (db : Db) (r : Resolution) (t : ℕ) : List ℤ × Option ℕ :=
  if r.keys = [] then reach env db [] r.resolved t
  else if env.dbFault t = none then
    reach env db ((db.watch.map MarketWatch.aoid).filter fun a => r.keys.contains a) r.resolved
      (t + 1)
  else ([], none)

/-- Every call after the bulk unflag goes through. -/
def Completes (env : Env) (db : Db) (r : Resolution) (t : ℕ) : Prop :=
  ∃ t', (retracked env db r (t + 1)).2 = some t' ∧ Concludes env db r.message t'

/-- The bulk unflag takes no flag away, and the rows written before the first failure
were flagged already. -/
def Idle (env : Env) (db : Db) (r : Resolution) (t : ℕ) : Prop :=
  (∀ a, Flagged db a → a ∈ r.keys) ∧ ∀ a ∈ (retracked env db r (t + 1)).1, Flagged db a

/-! What the calls do -/

section Calls
variable {w : World}

theorem yields_sendPrivgroup (message : String) :
    Yields (sendPrivgroup env message) w
      (fun _ w' => sendEnd env message w.tick = some w'.tick ∧ w'.db = w.db)
      (fun _ w' => sendEnd env message w.tick = none ∧ w'.db = w.db) := by
  unfold sendPrivgroup sendEnd
  cases env.chat.sendPrivgroup with
  | none => exact Yields.pure ⟨rfl, rfl⟩
  | some send =>
    apply yields_external
    · intro e hsend
      exact ⟨by simp [hsend, Except.isOk, Except.toBool], rfl⟩
    · intro u hsend
      exact ⟨by simp [hsend, Except.isOk, Except.toBool, World.next], rfl⟩

theorem yields_announceBackground (message : String) :
    Yields (announceBackground env message) w
      (fun _ w' => announceEnd env w.db message w.tick = some w'.tick ∧ w'.db = w.db)
      (fun _ w' => announceEnd env w.db message w.tick = none ∧ w'.db = w.db) := by
  unfold announceBackground announceEnd
  cases hfault : env.dbFault w.tick with
  | some e => simp [Yields, getBool, run_get, Coro.run_bind, hfault, World.next]
  | none =>
    cases hread : readSetting env w.db "LogBackgroundToPrivateChannel" with
    | error e => simp [Yields, getBool, run_get, Coro.run_bind, hfault, hread, World.next]
    | ok v =>
      cases v with
      | bool logged =>
        rw [Yields, Coro.run_bind_ok (run_getBool_ok hfault hread)]
        cases logged with
        | false => exact ⟨rfl, rfl⟩
        | true => exact @yields_sendPrivgroup env w.next s!"Market: {message}"
      | _ => simp [Yields, getBool, run_get, Coro.run_bind, hfault, hread, World.next]

/-- The two calls of the upsert: the read of the row and the write. -/
theorem yields_upsertWatch_calls (aoid : ℤ) (item : Item) :
    Yields (upsertWatch env aoid item.name item.ql item.icon true) w
      (fun _ w' => Takes env aoid item w.tick ∧ w'.tick = w.tick + 2)
      (fun _ w' => ¬ Takes env aoid item w.tick ∧ w'.db = w.db) := by
  unfold upsertWatch getWatch
  refine Yields.bind (Q := fun _ w₁ => env.dbFault w.tick = none ∧ (int8 aoid).isOk ∧
    w₁.db = w.db ∧ w₁.tick = w.tick + 1) (yields_query_of ?_ ?_) ?_
  · rintro e (hfault | hres)
    · exact ⟨fun htakes => by simp [htakes.1] at hfault, rfl⟩
    · refine ⟨fun htakes => ?_, rfl⟩
      obtain ⟨u, hint⟩ := isOk_iff.mp htakes.2.1
      rw [hint] at hres
      cases hres
  · intro existing hfault hres
    obtain ⟨u, hint, _⟩ := except_bind_eq_ok.mp hres
    exact ⟨hfault, isOk_iff.mpr ⟨u, hint⟩, rfl, rfl⟩
  · rintro existing w₁ ⟨hfault, hint, hdb, htick⟩
    rw [← hdb]
    refine Yields.bind (Q := fun _ w₂ => Takes env aoid item w.tick ∧ w₂.tick = w.tick + 2)
      (yields_statement_of ?_ ?_) fun _ w₂ h => Yields.pure h
    · rw [htick]
      rintro e (hfault₁ | hres)
      · exact ⟨fun htakes => by simp [htakes.2.2.1] at hfault₁, rfl⟩
      · refine ⟨fun htakes => ?_, rfl⟩
        obtain ⟨_, _, _, hname, hql, hicon⟩ := htakes
        obtain ⟨_, hname⟩ := isOk_iff.mp hname
        obtain ⟨_, hql⟩ := isOk_iff.mp hql
        obtain ⟨_, hicon⟩ := isOk_iff.mp hicon
        rw [hname, ok_bind, hql, ok_bind, hicon, ok_bind] at hres
        cases hrow : lookup MarketWatch.aoid aoid w₁.db.watch with
        | none =>
          -- no other row has the key, so the insert is accepted
          have hnew := lookup_eq_none.mp hrow
          simp [hrow, Db.insertWatch, hnew, orRefused, bind, Except.bind, pure, Except.pure]
            at hres
        | some row =>
          rw [hrow] at hres
          cases hres
    · rw [htick]
      intro u db note hfault₁ hres
      obtain ⟨_, hname, hres⟩ := except_bind_eq_ok.mp hres
      obtain ⟨_, hql, hres⟩ := except_bind_eq_ok.mp hres
      obtain ⟨_, hicon, _⟩ := except_bind_eq_ok.mp hres
      refine ⟨⟨hfault, hint, hfault₁, ?_, ?_, ?_⟩, rfl⟩
      · exact isOk_iff.mpr ⟨_, hname⟩
      · exact isOk_iff.mpr ⟨_, hql⟩
      · exact isOk_iff.mpr ⟨_, hicon⟩

/-- An automatic upsert flags its item, or raises and leaves the rows as they were. -/
theorem yields_upsertWatch (aoid : ℤ) (item : Item) :
    Yields (upsertWatch env aoid item.name item.ql item.icon true) w
      (fun _ w' => Takes env aoid item w.tick ∧ w'.tick = w.tick + 2 ∧
        w'.db.settings = w.db.settings ∧ ∀ a, Flagged w'.db a ↔ Flagged w.db a ∨ a = aoid)
      (fun _ w' => ¬ Takes env aoid item w.tick ∧ w'.db = w.db) := by
  have hcalls := @yields_upsertWatch_calls env w aoid item
  refine .of_run (fun isNew w' hrun => ?_) fun e w' hrun => hcalls.error hrun
  have hkeeps : Keeps (fun op => op = .upsertWatch aoid)
      (upsertWatch env aoid item.name item.ql item.icon true) :=
    keeps_upsertWatch (A := fun op => op = .upsertWatch aoid) rfl _ _ _ _
  obtain ⟨htakes, htick⟩ := hcalls.ok hrun
  refine ⟨htakes, htick, ?_, upsertWatch_ok hrun⟩
  exact hkeeps.eq_of_run (f := fun db => db.settings)
    (fun op _ _ _ hop heffect => heffect.settings_eq (by simp [hop])) hrun

theorem announceEnd_congr {db db' : Db} (h : db'.settings = db.settings) (message : String) (t : ℕ) :
    announceEnd env db' message t = announceEnd env db message t := by
  unfold announceEnd readSetting
  rw [h]

theorem reach_congr {db db' : Db} (h : db'.settings = db.settings) (existing : List ℤ)
    (resolved : List (ℤ × Item)) (t : ℕ) :
    reach env db' existing resolved t = reach env db existing resolved t := by
  induction resolved generalizing t with
  | nil => rfl
  | cons p rest ih =>
    obtain ⟨aoid, item⟩ := p
    unfold reach
    rw [announceEnd_congr h, ih]
    cases announceEnd env db s!"{item.name} added to auto-tracking" (t + 2) with
    | none => rfl
    | some t' =>
      dsimp only
      rw [ih]

/-- The loop flags the ids it reaches. -/
theorem yields_trackResolved (existing : List ℤ) (resolved : List (ℤ × Item)) :
    Yields (trackResolved env existing resolved) w
      (fun _ w' => (reach env w.db existing resolved w.tick).2 = some w'.tick ∧
        w'.db.settings = w.db.settings ∧
        ∀ a, Flagged w'.db a ↔ Flagged w.db a ∨ a ∈ (reach env w.db existing resolved w.tick).1)
      (fun _ w' => (reach env w.db existing resolved w.tick).2 = none ∧
        ∀ a, Flagged w'.db a ↔ Flagged w.db a ∨ a ∈ (reach env w.db existing resolved w.tick).1) := by
  induction resolved generalizing w with
  | nil => exact Yields.pure ⟨rfl, rfl, fun a => by simp [reach]⟩
  | cons p rest ih =>
    obtain ⟨aoid, item⟩ := p
    unfold trackResolved
    refine Yields.bind ((yields_upsertWatch aoid item).mono (fun _ _ h => h) ?_) ?_
    · rintro e w' ⟨hrefused, hdb⟩
      simp [reach, hrefused, hdb]
    · rintro isNew w₁ ⟨htakes, htick, hsettings, hflags⟩
      -- the rest of the loop goes on from the row of this item
      have hrest : ∀ w₂ : World, w₂.db.settings = w.db.settings →
          (∀ a, Flagged w₂.db a ↔ Flagged w.db a ∨ a = aoid) →
          reach env w.db existing ((aoid, item) :: rest) w.tick =
            (aoid :: (reach env w.db existing rest w₂.tick).1,
              (reach env w.db existing rest w₂.tick).2) →
          Yields (trackResolved env existing rest) w₂
            (fun _ w' => (reach env w.db existing ((aoid, item) :: rest) w.tick).2 = some w'.tick ∧
              w'.db.settings = w.db.settings ∧ ∀ a, Flagged w'.db a ↔ Flagged w.db a ∨
                a ∈ (reach env w.db existing ((aoid, item) :: rest) w.tick).1)
            (fun _ w' => (reach env w.db existing ((aoid, item) :: rest) w.tick).2 = none ∧
              ∀ a, Flagged w'.db a ↔ Flagged w.db a ∨
                a ∈ (reach env w.db existing ((aoid, item) :: rest) w.tick).1) := by
        intro w₂ hsettings₂ hflags₂ hreach
        rw [hreach]
        have hloop := @ih w₂
        rw [reach_congr hsettings₂] at hloop
        refine hloop.mono ?_ ?_
        · rintro _ w' ⟨hstop, hsame, hgrown⟩
          refine ⟨hstop, hsame.trans hsettings₂, fun a => ?_⟩
          rw [hgrown, hflags₂, List.mem_cons, or_assoc]
        · rintro _ w' ⟨hstop, hgrown⟩
          refine ⟨hstop, fun a => ?_⟩
          rw [hgrown, hflags₂, List.mem_cons, or_assoc]
      by_cases hexists : existing.contains aoid = true
      · rw [if_neg (by simpa using hexists)]
        refine hrest w₁ hsettings hflags ?_
        rw [htick, reach, if_pos htakes, if_pos hexists]
      · rw [if_pos (by simpa using hexists)]
        refine Yields.bind ((yields_announceBackground _).mono (fun _ _ h => h) ?_) ?_
        · rintro e w' ⟨hsilent, hdb⟩
          rw [announceEnd_congr hsettings, htick] at hsilent
          have hreach : reach env w.db existing ((aoid, item) :: rest) w.tick = ([aoid], none) := by
            rw [reach, if_pos htakes, if_neg hexists, hsilent]
          rw [hreach, hdb]
          exact ⟨rfl, fun a => by rw [hflags, List.mem_singleton]⟩
        · rintro _ w₂ ⟨hannounced, hdb⟩
          rw [announceEnd_congr hsettings, htick] at hannounced
          refine hrest w₂ (by rw [hdb, hsettings]) (by rwa [hdb]) ?_
          rw [reach, if_pos htakes, if_neg hexists, hannounced]

/-- Writing the time of the resync. -/
theorem yields_setLastSync (now : ℤ) :
    Yields (SettingsRepo.set env "AutoTrackLastSync" (.int now)) w
      (fun _ w' => Stamps env w.db now w.tick ∧ w'.tick = w.tick + 2 ∧
        w'.db.watch = w.db.watch ∧ readSetting env w'.db "LogBackgroundToPrivateChannel" =
          readSetting env w.db "LogBackgroundToPrivateChannel")
      (fun _ w' => ¬ Stamps env w.db now w.tick ∧ w'.db.watch = w.db.watch) := by
  have hkey : text env "AutoTrackLastSync" = .ok () := by
    unfold text
    rw [env.storable_plain _ (by decide) (by decide)]
    rfl
  unfold SettingsRepo.set getRow
  refine Yields.bind (Q := fun row w₁ => env.dbFault w.tick = none ∧
    lookup Setting.key "AutoTrackLastSync" w.db.settings = some row ∧ w₁.db = w.db ∧
    w₁.tick = w.tick + 1) (yields_query_of ?_ ?_) ?_
  · rintro e (hfault | hres)
    · exact ⟨fun hstamps => by simp [hstamps.1] at hfault, rfl⟩
    · refine ⟨fun hstamps => ?_, rfl⟩
      obtain ⟨_, _, row, hrow, _⟩ := hstamps
      rw [hkey, ok_bind, hrow] at hres
      cases hres
  · intro row hfault hres
    rw [hkey, ok_bind] at hres
    cases hrow : lookup Setting.key "AutoTrackLastSync" w.db.settings with
    | none =>
      rw [hrow] at hres
      cases hres
    | some row' =>
      rw [hrow] at hres
      cases hres
      exact ⟨hfault, rfl, rfl, rfl⟩
  · rintro row w₁ ⟨hfault, hrow, hdb, htick⟩
    refine Yields.bind (Q := fun value w₂ => w₂ = w₁ ∧
      serialize env.py (.int now) row.valueType = .ok value) (Yields.ofExcept ?_ ?_) ?_
    · exact fun value hvalue => ⟨rfl, hvalue⟩
    · intro e hvalue
      refine ⟨?_, by rw [hdb]⟩
      rintro ⟨_, _, row', hrow', value, hvalue', _⟩
      rw [hrow] at hrow'
      cases hrow'
      rw [hvalue] at hvalue'
      cases hvalue'
    · rintro value w₂ ⟨rfl, hvalue⟩
      rw [← hdb]
      apply yields_statement_of
      · rw [htick]
        rintro e (hfault₁ | hres)
        · exact ⟨fun hstamps => by simp [hstamps.2.1] at hfault₁, rfl⟩
        · refine ⟨?_, rfl⟩
          rintro ⟨_, _, row', hrow', value', hvalue', htext⟩
          rw [hdb, hrow] at hrow'
          cases hrow'
          rw [hvalue] at hvalue'
          cases hvalue'
          obtain ⟨_, htext⟩ := isOk_iff.mp htext
          rw [htext] at hres
          cases hres
      · rw [htick]
        intro u db note hfault₁ hres
        obtain ⟨_, htext, hres⟩ := except_bind_eq_ok.mp hres
        cases hres
        refine ⟨⟨hfault, hfault₁, row, ?_, value, hvalue, isOk_iff.mpr ⟨_, htext⟩⟩, rfl, rfl, ?_⟩
        · rwa [hdb]
        · exact readSetting_updateSetting_of_ne (by decide)

/-- The calls after the loop leave the flags alone. -/
theorem yields_conclude (r : Resolution) :
    Yields (conclude env r) w
      (fun _ w' => Concludes env w.db r.message w.tick ∧ w'.db.watch = w.db.watch)
      (fun _ w' => ¬ Concludes env w.db r.message w.tick ∧ w'.db.watch = w.db.watch) := by
  unfold conclude
  refine Yields.bind (Q := fun now w₁ => now = env.clock w.tick ∧ w₁.db = w.db ∧
    w₁.tick = w.tick + 1) (yields_external ?_ ?_) ?_
  · intro e hclock
    cases hclock
  · intro now hclock
    cases hclock
    exact ⟨rfl, rfl, rfl⟩
  rintro now w₁ ⟨rfl, hdb, htick⟩
  rw [← hdb]
  refine Yields.bind ((yields_setLastSync _).mono (fun _ _ h => h) ?_) ?_
  · rintro e w' ⟨hrefused, hwatch⟩
    rw [htick] at hrefused
    exact ⟨fun hconcludes => hrefused hconcludes.1, hwatch⟩
  rintro _ w₂ ⟨hstamps, htick₂, hwatch, hread⟩
  rw [htick] at hstamps htick₂
  have hends : announceEnd env w₂.db r.message w₂.tick =
      announceEnd env w₁.db r.message (w.tick + 3) := by
    unfold announceEnd
    rw [hread, htick₂]
  refine Yields.bind ((yields_announceBackground r.message).mono (fun _ _ h => h) ?_) ?_
  · rintro e w' ⟨hsilent, hdb'⟩
    rw [hends] at hsilent
    refine ⟨fun hconcludes => ?_, by rw [hdb', hwatch]⟩
    have hsome := hconcludes.2
    rw [hsilent] at hsome
    cases hsome
  · rintro _ w' ⟨hannounced, hdb'⟩
    rw [hends] at hannounced
    exact Yields.pure ⟨⟨hstamps, by rw [hannounced]; rfl⟩, by rw [hdb', hwatch]⟩

/-- The bulk unflag, or a refusal that leaves the rows as they were. -/
theorem yields_unflag (keys : List ℤ) :
    Yields (unflagAutotrackNotIn env keys) w
      (fun _ w' => Unflags env keys w.tick ∧ w'.tick = w.tick + 1 ∧
        w'.db.settings = w.db.settings ∧
        w'.db.watch.map MarketWatch.aoid = w.db.watch.map MarketWatch.aoid ∧
        ∀ a, Flagged w'.db a ↔ Flagged w.db a ∧ a ∈ keys)
      (fun _ w' => ¬ Unflags env keys w.tick ∧ w'.db = w.db) := by
  have hcalls : Yields (unflagAutotrackNotIn env keys) w
      (fun _ w' => Unflags env keys w.tick ∧ w'.tick = w.tick + 1 ∧
        w'.db.settings = w.db.settings ∧
        w'.db.watch.map MarketWatch.aoid = w.db.watch.map MarketWatch.aoid)
      (fun _ w' => ¬ Unflags env keys w.tick ∧ w'.db = w.db) := by
    unfold unflagAutotrackNotIn
    apply yields_statement_of
    · rintro e (hfault | hres)
      · exact ⟨fun hunflags => by simp [hunflags.1] at hfault, rfl⟩
      · refine ⟨fun hunflags => ?_, rfl⟩
        obtain ⟨_, hkeys⟩ := isOk_iff.mp hunflags.2
        rw [hkeys] at hres
        cases hres
    · intro u db note hfault hres
      obtain ⟨_, hkeys, hres⟩ := except_bind_eq_ok.mp hres
      cases hres
      refine ⟨⟨hfault, isOk_iff.mpr ⟨_, hkeys⟩⟩, rfl, rfl, ?_⟩
      simp only [Db.updateWatch, updateRows, List.map_map]
      apply List.map_congr_left
      intro row _
      simp only [Function.comp_apply]
      split <;> rfl
  refine .of_run (fun u w' hrun => ?_) fun e w' hrun => hcalls.error hrun
  obtain ⟨hunflags, htick, hsettings, hids⟩ := hcalls.ok hrun
  exact ⟨hunflags, htick, hsettings, hids, unflagAutotrackNotIn_ok hrun⟩

/-- The select of the existing ids, after an unflag that took the keys. -/
theorem yields_existingAoids (r : Resolution) (hkeys : (r.keys.forM int8).isOk) :
    Yields (existingAoids env r.keys) w
      (fun existing w' => w'.db = w.db ∧
        retracked env w.db r w.tick = reach env w.db existing r.resolved w'.tick)
      (fun _ w' => retracked env w.db r w.tick = ([], none) ∧ w'.db = w.db) := by
  unfold existingAoids retracked
  by_cases hnone : r.keys = []
  · rw [if_pos hnone, if_pos hnone]
    exact Yields.pure ⟨rfl, rfl⟩
  · rw [if_neg hnone, if_neg hnone]
    apply yields_query_of
    · rintro e (hfault | hres)
      · exact ⟨by simp [hfault], rfl⟩
      · obtain ⟨_, hkeys⟩ := isOk_iff.mp hkeys
        rw [hkeys] at hres
        cases hres
    · intro existing hfault hres
      obtain ⟨_, _, hres⟩ := except_bind_eq_ok.mp hres
      cases hres
      exact ⟨rfl, by rw [if_pos hfault]; rfl⟩

theorem retracked_congr {db db' : Db} (hsettings : db'.settings = db.settings)
    (hids : db'.watch.map MarketWatch.aoid = db.watch.map MarketWatch.aoid) (r : Resolution)
    (t : ℕ) : retracked env db' r t = retracked env db r t := by
  unfold retracked
  rw [hids, reach_congr hsettings, reach_congr hsettings]

/-- How the part from the bulk unflag on ends. -/
theorem yields_tracking (r : Resolution) :
    Yields (tracking env r) w
      (fun _ _ => Unflags env r.keys w.tick ∧ Completes env w.db r w.tick)
      (fun _ w' => ¬ Unflags env r.keys w.tick ∧ w'.db = w.db ∨
        Unflags env r.keys w.tick ∧ ¬ Completes env w.db r w.tick ∧
          ∀ a, Flagged w'.db a ↔ Flagged w.db a ∧ a ∈ r.keys ∨
            a ∈ (retracked env w.db r (w.tick + 1)).1) := by
  unfold tracking
  refine Yields.bind ((yields_unflag r.keys).mono (fun _ _ h => h) fun _ _ => Or.inl) ?_
  rintro _ w₁ ⟨hunflags, htick, hsettings, hids, hflags⟩
  have hretracked : retracked env w₁.db r w₁.tick = retracked env w.db r (w.tick + 1) := by
    rw [htick, retracked_congr hsettings hids]
  refine Yields.bind ((yields_existingAoids r hunflags.2).mono (fun _ _ h => h) ?_) ?_
  · rintro e w' ⟨hnone, hdb⟩
    rw [hretracked] at hnone
    refine Or.inr ⟨hunflags, ?_, fun a => ?_⟩
    · rintro ⟨t', hstop, _⟩
      rw [hnone] at hstop
      cases hstop
    · rw [hdb, hflags, hnone]
      simp
  rintro existing w₂ ⟨hdb, hreach⟩
  rw [hretracked, ← hdb] at hreach
  refine Yields.bind ((yields_trackResolved existing r.resolved).mono (fun _ _ h => h) ?_) ?_
  · rintro e w' ⟨hstop, hgrown⟩
    rw [← hreach] at hstop hgrown
    refine Or.inr ⟨hunflags, ?_, fun a => ?_⟩
    · rintro ⟨t', hstop', _⟩
      rw [hstop] at hstop'
      cases hstop'
    · rw [hgrown, hdb, hflags]
  rintro _ w₃ ⟨hstop, hsame, hgrown⟩
  rw [← hreach] at hstop hgrown
  have hcongr : Concludes env w₃.db r.message w₃.tick ↔ Concludes env w.db r.message w₃.tick := by
    have hdb₃ : w₃.db.settings = w.db.settings := by rw [hsame, hdb, hsettings]
    unfold Concludes Stamps
    rw [hdb₃, announceEnd_congr hdb₃]
  refine (yields_conclude r).mono ?_ ?_
  · rintro _ w' ⟨hconcludes, _⟩
    exact ⟨hunflags, w₃.tick, hstop, hcongr.mp hconcludes⟩
  · rintro e w' ⟨hrefused, hwatch⟩
    refine Or.inr ⟨hunflags, ?_, fun a => ?_⟩
    · rintro ⟨t', hstop', hconcludes⟩
      rw [hstop] at hstop'
      cases hstop'
      exact hrefused (hcongr.mpr hconcludes)
    · have hsameFlags : Flagged w'.db a ↔ Flagged w₃.db a := by
        unfold Flagged
        rw [hwatch]
      rw [hsameFlags, hgrown, hdb, hflags]

end Calls

/-! When a failed resync leaves the flags alone -/

theorem reach_subset (db : Db) (existing : List ℤ) (resolved : List (ℤ × Item)) (t : ℕ) :
    ∀ a ∈ (reach env db existing resolved t).1, a ∈ resolved.map Prod.fst := by
  induction resolved generalizing t with
  | nil => simp [reach]
  | cons p rest ih =>
    obtain ⟨aoid, item⟩ := p
    intro a ha
    unfold reach at ha
    split at ha
    · split at ha
      · rcases List.mem_cons.mp ha with rfl | ha
        · exact List.mem_cons_self
        · exact List.mem_cons_of_mem _ (ih _ a ha)
      · split at ha
        · rcases List.mem_cons.mp ha with rfl | ha
          · exact List.mem_cons_self
          · exact List.mem_cons_of_mem _ (ih _ a ha)
        · rw [List.mem_singleton.mp ha]
          exact List.mem_cons_self
    · cases ha

theorem retracked_subset (db : Db) (r : Resolution) (t : ℕ) :
    ∀ a ∈ (retracked env db r t).1, a ∈ r.keys := by
  intro a ha
  unfold retracked at ha
  split at ha
  · exact reach_subset _ _ _ _ a ha
  · split at ha
    · exact reach_subset _ _ _ _ a ha
    · cases ha

def SameFlags (db db' : Db) : Prop := ∀ a, Flagged db' a ↔ Flagged db a

/-- A resync that raises from the bulk unflag on leaves the flags alone in these cases. -/
def LeavesFlags (env : Env) (db : Db) (r : Resolution) (t : ℕ) : Prop :=
  ¬ Unflags env r.keys t ∨ Completes env db r t ∨ Idle env db r t

/-- When the second part raises, the flags are as before exactly in the cases of `LeavesFlags`. -/
theorem tracking_leaves_iff {r : Resolution} {w : World} :
    (∀ e w', (tracking env r).run w = (.error e, w') → SameFlags w.db w'.db) ↔
      LeavesFlags env w.db r w.tick := by
  have hends := @yields_tracking env w r
  constructor
  · intro h
    rcases hrun : (tracking env r).run w with ⟨e | summary, w'⟩
    · have hsame := h e w' hrun
      rcases hends.error hrun with ⟨hrefused, _⟩ | ⟨_, _, hflags⟩
      · exact Or.inl hrefused
      · refine Or.inr (Or.inr ⟨fun a ha => ?_, fun a ha => ?_⟩)
        · rcases (hflags a).mp ((hsame a).mpr ha) with ⟨_, hkey⟩ | hreached
          · exact hkey
          · exact retracked_subset _ _ _ a hreached
        · exact (hsame a).mp ((hflags a).mpr (Or.inr ha))
    · exact Or.inr (Or.inl (hends.ok hrun).2)
  · intro h e w' hrun a
    rcases hends.error hrun with ⟨_, hdb⟩ | ⟨hunflags, hincomplete, hflags⟩
    · rw [hdb]
    · rcases h with hrefused | hcomplete | ⟨hkept, hreached⟩
      · exact absurd hunflags hrefused
      · exact absurd hcomplete hincomplete
      · rw [hflags]
        constructor
        · rintro (⟨hflag, _⟩ | hmem)
          · exact hflag
          · exact hreached a hmem
        · exact fun hflag => Or.inl ⟨hflag, hkept a hflag⟩

/-- The writes of the lookups are to the backoff table. -/
theorem keeps_resolving : Keeps (fun op => op = .backoff) (resolving env) := by
  unfold resolving
  refine Coro.Frames.bind (keeps_getBool _) fun enabled => ?_
  cases enabled with
  | false => exact Coro.Frames.pure _
  | true =>
    simp only [Bool.not_true, Bool.false_eq_true, if_false]
    refine Coro.Frames.bind (keeps_getInt _) fun count => ?_
    split
    · exact Coro.Frames.pure _
    · refine Coro.Frames.bind (Coro.Frames.ofExcept _) fun pages => ?_
      refine Coro.Frames.bind (keeps_getStr _) fun sourceUrl => ?_
      refine Coro.Frames.bind (keeps_fetchPages _ _ _ _ _) fun found => ?_
      obtain ⟨pagesFetched, aoids⟩ := found
      dsimp only
      split
      · exact Coro.Frames.pure _
      · refine Coro.Frames.bind ?_ fun _ => Coro.Frames.pure _
        exact keeps_resolveItems (A := fun op => op = .backoff) rfl _

/-- Before the bulk unflag no watch row and no setting changes. -/
theorem yields_resolving {w : World} :
    Yields (resolving env) w
      (fun _ w' => w'.db.watch = w.db.watch ∧ w'.db.settings = w.db.settings)
      (fun _ w' => w'.db.watch = w.db.watch) := by
  have hwatch := (@keeps_resolving env).yields (f := fun db => db.watch)
    (fun op _ _ _ hop heffect => heffect.watch_eq (by simp [hop, TouchesWatch])) w
  have hsettings := (@keeps_resolving env).yields (f := fun db => db.settings)
    (fun op _ _ _ hop heffect => heffect.settings_eq (by simp [hop])) w
  refine .of_run ?_ ?_
  · exact fun r w' hrun => ⟨hwatch.ok hrun, hsettings.ok hrun⟩
  · exact fun e w' hrun => hwatch.error hrun

theorem leavesFlags_congr {db db' : Db} (hwatch : db'.watch = db.watch)
    (hsettings : db'.settings = db.settings) (r : Resolution) (t : ℕ) :
    LeavesFlags env db' r t ↔ LeavesFlags env db r t := by
  have hretracked : ∀ t', retracked env db' r t' = retracked env db r t' :=
    retracked_congr hsettings (by rw [hwatch]) r
  unfold LeavesFlags Completes Concludes Stamps Idle Flagged
  simp only [hwatch, hsettings, hretracked, announceEnd_congr hsettings]

/-- A resync that raises leaves the flags alone if and only if the lookups fail, or what
follows them refuses the bulk unflag, goes through, or had no flag to change. -/
theorem failed_resync_leaves_flags_iff {w : World} :
    (∀ e w', (syncTopTradedItems env).run w = (.error e, w') → SameFlags w.db w'.db) ↔
      ∀ r w₁, (resolving env).run w = (.ok (some r), w₁) → LeavesFlags env w.db r w₁.tick := by
  rw [syncTopTradedItems_eq]
  rcases hrun : (resolving env).run w with ⟨e | found, w₁⟩
  · -- a lookup raised
    have hwatch := yields_resolving.error hrun
    constructor
    · intro _ r w₂ hfound
      cases hfound
    · intro _ e' w' hfail a
      rw [Coro.run_bind_error hrun] at hfail
      cases hfail
      unfold Flagged
      rw [hwatch]
  · obtain ⟨hwatch, hsettings⟩ := yields_resolving.ok hrun
    rw [Coro.run_bind_ok hrun]
    cases found with
    | none =>
      constructor
      · intro _ r w₂ hfound
        cases hfound
      · intro _ e' w' hfail
        cases hfail
    | some r =>
      have hsame : ∀ w' : World, SameFlags w₁.db w'.db ↔ SameFlags w.db w'.db := by
        intro w'
        unfold SameFlags Flagged
        rw [hwatch]
      have htracking : (∀ e w', (trackingOf env (some r)).run w₁ = (.error e, w') →
          SameFlags w.db w'.db) ↔ LeavesFlags env w₁.db r w₁.tick := by
        rw [← tracking_leaves_iff]
        rcases htrack : (tracking env r).run w₁ with ⟨e | summary, w₂⟩
        · have hfail : (trackingOf env (some r)).run w₁ = (.error e, w₂) :=
            Coro.run_bind_error htrack _
          simp only [hfail, hsame, Prod.mk.injEq, Except.error.injEq]
        · have hdone : (trackingOf env (some r)).run w₁ = (.ok (some summary), w₂) :=
            Coro.run_bind_ok htrack _
          simp [hdone]
      rw [htracking, leavesFlags_congr hwatch hsettings]
      constructor
      · intro h r' w₂ hfound
        cases hfound
        exact h
      · intro h
        exact h r w₁ rfl

def flagged : Db where
  toTables :=
    { watch := [⟨5, "Belt", 1, none, 0, none, true⟩]
      settings := [⟨"AutoTrackEnabled", "true", .bool⟩, ⟨"AutoTrackCount", "100", .int⟩,
        ⟨"AutoTrackSourceUrl", "https://ao-stonks.com", .str⟩, ⟨"AutoTrackLastSync", "0", .int⟩,
        ⟨"LogBackgroundToPrivateChannel", "true", .bool⟩] }
  sound := by constructor <;> simp [Keyed, Refers]

def disconnected : Env := { listing with
  chat := { sendPrivgroup := some fun _ _ => .error .connection } }

/-- The announcement of item 7 raises; item 5 has lost its flag and item 7 has one. -/
theorem announcement_loses_flag :
    ((syncTopTradedItems disconnected).run { db := flagged }).1 = .error .connection ∧
      ¬ SameFlags flagged ((syncTopTradedItems disconnected).run { db := flagged }).2.db := by
  refine ⟨by decide +kernel, fun hsame => ?_⟩
  have hlost : ¬ ∃ r ∈ ((syncTopTradedItems disconnected).run { db := flagged }).2.db.watch,
      r.aoid = 5 ∧ r.autoTracked = true := by decide +kernel
  have hbefore : ∃ r ∈ flagged.watch, r.aoid = 5 ∧ r.autoTracked = true := by decide
  exact hlost ((hsame 5).mpr hbefore)

end AoMarket.ResyncFailure
