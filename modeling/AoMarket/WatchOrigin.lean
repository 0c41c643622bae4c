import AoMarket.ResyncResult
import AoMarket.Tracing

/-!
Where watch rows come from. Whatever runs side by side, name, quality and icon of a tracked item
are those of one answer that the item service gave for its id, and an item is auto-tracked
because a page that a resync fetched lists it.
-/

namespace AoMarket.WatchOrigin

open Coroutine Interleaving Reliance Recording Tracing Relational Models Database Environment
  MarketService AutoTrack Writes ServiceWrites ChatWrites HttpWrites Commands Runner Concurrency
open MarketRepo hiding register logAction clearFilter
open HttpRoutes (App Request serve guardOf)

/-- The item service gave the item for the id. -/
def Answered (env : Env) (turn : World → Prop) (aoid : ℤ) (item : Item) : Prop :=
  ∃ asked, turn asked ∧ env.getItem asked.tick aoid = .ok (some item)

structure Describes (item : Item) (row : MarketWatch) : Prop where
  name : row.name = item.name
  ql : row.ql = item.ql
  icon : row.icon = item.icon

/-- A fetched page lists the id. -/
def Listed (env : Env) (turn : World → Prop) (aoid : ℤ) : Prop :=
  ∃ fetched url html found, turn fetched ∧ env.fetchPage fetched.tick url = .ok (some html) ∧
    extractAoids env.py html = .ok found ∧ aoid ∈ found

/-- A row that still says of its item what `row` said. -/
structure SameItem (row row' : MarketWatch) : Prop where
  aoid : row'.aoid = row.aoid
  name : row'.name = row.name
  ql : row'.ql = row.ql
  icon : row'.icon = row.icon

/-- The rows that a run has left are accounted for. -/
structure Vetted {ι : Type} (env : Env) (start : World) (t : Recorded ι World) : Prop where
  ticks : ∀ u, t.Saw u → u.tick ≤ t.now.tick
  described : ∀ row' ∈ t.now.db.watch, (∃ row ∈ start.db.watch, SameItem row row') ∨
    ∃ i item, Answered env (t.Turn i) row'.aoid item ∧ Describes item row'
  flagged : ∀ row' ∈ t.now.db.watch, row'.autoTracked = true →
    (∃ row ∈ start.db.watch, row.aoid = row'.aoid ∧ row.autoTracked = true) ∨
      ∃ i, Listed env (t.Turn i) row'.aoid

variable {ι : Type} {i : ι} {env : Env} {start : World} {t u : Recorded ι World} {α : Type}

section Turns
variable {turn turn' : World → Prop} (hmore : ∀ w, turn w → turn' w)
include hmore

theorem Answered.mono {aoid : ℤ} {item : Item} (h : Answered env turn aoid item) :
    Answered env turn' aoid item := by
  obtain ⟨asked, hturn, hitem⟩ := h
  exact ⟨asked, hmore _ hturn, hitem⟩

theorem Listed.mono {aoid : ℤ} (h : Listed env turn aoid) : Listed env turn' aoid := by
  obtain ⟨fetched, url, html, found, hturn, hpage⟩ := h
  exact ⟨fetched, url, html, found, hmore _ hturn, hpage⟩

end Turns

theorem SameItem.refl (row : MarketWatch) : SameItem row row := ⟨rfl, rfl, rfl, rfl⟩

theorem SameItem.trans {a b c : MarketWatch} (h : SameItem a b) (h' : SameItem b c) :
    SameItem a c :=
  ⟨h'.aoid.trans h.aoid, h'.name.trans h.name, h'.ql.trans h.ql, h'.icon.trans h.icon⟩

/-! Everything but an upsert -/

def Quiet (op : Write) : Prop := ∀ aoid, op ≠ .upsertWatch aoid

theorem watch_of_effect {op : Write} {db db' : Db} {note : List Event}
    (h : Effect op db db' note) (hop : Quiet op) :
    ∀ row' ∈ db'.watch, ∃ row ∈ db.watch, SameItem row row' ∧
      (row'.autoTracked = true → row.autoTracked = true) := by
  have hkept : (∀ row' ∈ db'.watch, row' ∈ db.watch) → ∀ row' ∈ db'.watch, ∃ row ∈ db.watch,
      SameItem row row' ∧ (row'.autoTracked = true → row.autoTracked = true) :=
    fun hsub row' hrow => ⟨row', hsub row' hrow, SameItem.refl row', id⟩
  have hsame : db'.watch = db.watch → ∀ row' ∈ db'.watch, row' ∈ db.watch :=
    fun heq row' hrow => by rwa [heq] at hrow
  cases h with
  | insertWatch row => exact absurd rfl (hop row.aoid)
  | updateWatch _ aoid => exact absurd rfl (hop aoid)
  | setLastPolled _ aoid ts =>
    intro row' hrow
    obtain ⟨row, hmem, rfl⟩ := List.mem_map.mp hrow
    refine ⟨row, hmem, ?_⟩
    split
    · exact ⟨⟨rfl, rfl, rfl, rfl⟩, id⟩
    · exact ⟨SameItem.refl row, id⟩
  | unflag _ p =>
    intro row' hrow
    obtain ⟨row, hmem, rfl⟩ := List.mem_map.mp hrow
    refine ⟨row, hmem, ?_⟩
    split
    · exact ⟨⟨rfl, rfl, rfl, rfl⟩, fun h => absurd h (by simp)⟩
    · exact ⟨SameItem.refl row, id⟩
  | deleteWatch _ aoid => exact hkept fun _ hrow => (mem_deleteRows.mp hrow).1
  | clearWatch => exact hkept fun _ hrow => (mem_deleteRows.mp hrow).1
  | deleteStale _ aoids => exact hkept fun _ hrow => (mem_deleteRows.mp hrow).1
  | insertUser player h => exact hkept (hsame (by rw [Db.insertUser_eq_some h]))
  | insertHistory row cycle h => exact hkept (hsame (by rw [Db.insertHistory_eq_some h]))
  | insertSubscription row h => exact hkept (hsame (by rw [Db.insertSubscription_eq_some h]))
  | createKey player keyHash keyPrefix now h =>
    exact hkept (hsame (by rw [Db.insertApiKey_eq_some h]))
  | seedSettings _ rows =>
    obtain ⟨settings, htables⟩ := Db.seedSettings_tables rows db
    exact hkept (hsame (by rw [htables]))
  | _ => exact hkept (hsame rfl)

/-- A move after which each row is an old one or accounted for, and so is each flag. -/
theorem vetted_move (ht : Vetted env start t) {w : World} (htick : t.now.tick ≤ w.tick)
    (hrows : ∀ row' ∈ w.db.watch,
      ((∃ row ∈ t.now.db.watch, SameItem row row') ∨
        ∃ i' item, Answered env ((t.move i w).Turn i') row'.aoid item ∧ Describes item row') ∧
      (row'.autoTracked = true →
        (∃ row ∈ t.now.db.watch, row.aoid = row'.aoid ∧ row.autoTracked = true) ∨
          ∃ i', Listed env ((t.move i w).Turn i') row'.aoid)) :
    Vetted env start (t.move i w) := by
  have hlater := later_move i w t
  refine ⟨tick_le_move ht.ticks htick, fun row' hrow' => ?_, fun row' hrow' hflag => ?_⟩
  · rcases (hrows row' hrow').1 with ⟨row, hrow, hsame⟩ | hnew
    · rcases ht.described row hrow with ⟨old, hold, hsame'⟩ | ⟨j, item, hanswered, hdescribes⟩
      · exact Or.inl ⟨old, hold, hsame'.trans hsame⟩
      · refine Or.inr ⟨j, item, ?_, ?_⟩
        · rw [hsame.aoid]
          exact hanswered.mono (hlater.turn j)
        · exact ⟨hsame.name.trans hdescribes.name, hsame.ql.trans hdescribes.ql,
            hsame.icon.trans hdescribes.icon⟩
    · exact Or.inr hnew
  · rcases (hrows row' hrow').2 hflag with ⟨row, hrow, haoid, hauto⟩ | hnew
    · rw [← haoid]
      refine (ht.flagged row hrow hauto).imp_right fun h => ?_
      obtain ⟨j, hlisted⟩ := h
      exact ⟨j, hlisted.mono (hlater.turn j)⟩
    · exact Or.inr hnew

/-- Quiet writes leave the watch rows vetted. -/
theorem vetted_quiet {w : World} (h : Steps Quiet t.now w) (ht : Vetted env start t) :
    Vetted env start (t.move i w) := by
  obtain ⟨htick, note, _, hdb⟩ := h
  have hrows : ∀ row' ∈ w.db.watch, ∃ row ∈ t.now.db.watch, SameItem row row' ∧
      (row'.autoTracked = true → row.autoTracked = true) := by
    rcases hdb with ⟨hsame, _⟩ | ⟨op, hop, heffect⟩
    · rw [hsame]
      exact fun row' hrow' => ⟨row', hrow', SameItem.refl row', id⟩
    · exact watch_of_effect heffect hop
  refine vetted_move ht (by omega) fun row' hrow' => ?_
  obtain ⟨row, hrow, hsame, hflag⟩ := hrows row' hrow'
  exact ⟨Or.inl ⟨row, hrow, hsame⟩, fun h => Or.inl ⟨row, hrow, hsame.aoid.symm, hflag h⟩⟩

theorem vetted_start (env : Env) (w : World) : Vetted (ι := ι) env w ⟨w, []⟩ where
  ticks := tick_le_start w
  described := fun row hrow => Or.inl ⟨row, hrow, SameItem.refl row⟩
  flagged := fun row hrow hflag => Or.inl ⟨row, hrow, rfl, hflag⟩

instance : Accountable (ι := ι) (Vetted env start) (Steps Quiet) where
  ticks := fun _ u h hu => h.ticks u hu
  quiet := fun _ _ _ hs h => vetted_quiet hs h
  next := Steps.next

/-! Upserts -/

/-- What the service answers is on record. -/
theorem accounts_answer {I : Recorded ι World → Prop} {S : World → World → Prop}
    [Accountable I S] (hsilent : ∀ w w', Steps (fun _ => False) w w' → S w w') (ht : I t)
    (aoid : ℤ) : Accounts I i (getItem env aoid) t fun item u =>
      ∀ found, item = some found → Answered env (u.Turn i) aoid found := by
  refine accounts_external ht fun u hu _ item hitem => ⟨?_, ?_⟩
  · exact Accountable.quiet i u _ (hsilent _ _ (Steps.noted Silent.nil)) hu
  · rintro found rfl
    exact ⟨u.now, u.turn_now i _, hitem⟩

theorem accounts_getItem (ht : Vetted env start t) (aoid : ℤ) :
    Accounts (Vetted env start) i (getItem env aoid) t fun item u =>
      ∀ found, item = some found → Answered env (u.Turn i) aoid found :=
  accounts_answer (fun _ _ h => h.mono fun _ => False.elim) ht aoid

/-- A row says what the item service has said of its id; a flag is set for a listed id only. -/
theorem accounts_upsertWatch (ht : Vetted env start t) {aoid : ℤ} {item : Item} {auto : Bool}
    (hitem : Answered env (t.Turn i) aoid item)
    (hauto : auto = true → Listed env (t.Turn i) aoid) :
    Accounts (Vetted env start) i (upsertWatch env aoid item.name item.ql item.icon auto) t
      fun _ _ => True := by
  refine Accounts.bind ht (accounts_quiet (keeps_getWatch aoid) ht) fun existing u hu hlater _ => ?_
  refine Accounts.bind hu (F := fun _ _ => True) ?_ fun _ v hv _ _ => Accounts.pure hv trivial
  refine accounts_statement hu fun v hv hlater' _ db note hres => ⟨?_, trivial⟩
  have hmore : ∀ w x, t.Turn i x → (v.move i w).Turn i x := fun w x hx =>
    (later_move i w v).turn i x (hlater'.turn i x (hlater.turn i x hx))
  obtain ⟨_, _, hres⟩ := except_bind_eq_ok.mp hres
  obtain ⟨_, _, hres⟩ := except_bind_eq_ok.mp hres
  obtain ⟨_, _, hres⟩ := except_bind_eq_ok.mp hres
  refine vetted_move hv (Nat.le_succ _) ?_
  split at hres
  · obtain ⟨db', hdb, hres⟩ := except_bind_eq_ok.mp hres
    cases hres
    have hinserted := (Db.insertWatch_eq_some (orRefused_eq_ok hdb)).2
    intro row' hrow'
    rw [hinserted] at hrow'
    rcases List.mem_append.mp hrow' with hold | hnew
    · exact ⟨Or.inl ⟨row', hold, SameItem.refl row'⟩, fun h => Or.inl ⟨row', hold, rfl, h⟩⟩
    · rw [List.mem_singleton.mp hnew]
      exact ⟨Or.inr ⟨i, item, hitem.mono (hmore _), ⟨rfl, rfl, rfl⟩⟩,
        fun h => Or.inr ⟨i, (hauto h).mono (hmore _)⟩⟩
  · cases hres
    intro row' hrow'
    obtain ⟨row, hrow, rfl⟩ := List.mem_map.mp hrow'
    split
    · next hselected =>
      have haoid : row.aoid = aoid := by simpa using hselected
      refine ⟨Or.inr ⟨i, item, ?_, ⟨rfl, rfl, rfl⟩⟩, fun h => ?_⟩
      · rw [haoid]
        exact hitem.mono (hmore _)
      · rcases Bool.or_eq_true_iff.mp h with hflag | hflag
        · exact Or.inl ⟨row, hrow, rfl, hflag⟩
        · refine Or.inr ⟨i, ?_⟩
          rw [haoid]
          exact (hauto hflag).mono (hmore _)
    · exact ⟨Or.inl ⟨row, hrow, SameItem.refl row⟩, fun h => Or.inl ⟨row, hrow, rfl, h⟩⟩

theorem accounts_watchItem (ht : Vetted env start t) {aoid : ℤ} {item : Item}
    (hitem : Answered env (t.Turn i) aoid item) :
    Accounts (Vetted env start) i (watchItem env aoid item.name item.ql item.icon false) t
      fun _ _ => True := by
  refine Accounts.bind ht (accounts_upsertWatch ht hitem (by simp)) fun isNew u hu _ _ => ?_
  cases isNew with
  | false => exact Accounts.pure hu trivial
  | true =>
    exact Accounts.bind hu (accounts_quiet (keeps_announceTracked _ _) hu)
      fun _ v hv _ _ => Accounts.pure hv trivial

/-! Subscriptions and commands -/

theorem accounts_subscribeWithin (ht : Vetted env start t) (player : String) {aoid : ℤ} {item : Item}
    (hitem : Answered env (t.Turn i) aoid item) :
    Accounts (Vetted env start) i (subscribeWithin env player aoid item) t fun _ _ => True := by
  have hown : ∀ op, op = .insertSubscription player aoid ∨ op = .insertAction → Quiet op := by
    rintro op (rfl | rfl) aoid' <;> simp
  refine Accounts.bind ht (accounts_quiet (keeps_getInt _) ht) fun limit u hu hlater _ => ?_
  refine Accounts.bind hu (accounts_quiet (keeps_countSubscriptions player) hu)
    fun count v hv hlater' _ => ?_
  split
  · exact accounts_quiet (Coro.Frames.throw _) hv
  · have hitem' := (hitem.mono (hlater.turn i)).mono (hlater'.turn i)
    refine Accounts.bind hv (accounts_watchItem hv hitem') fun _ x hx _ _ => ?_
    refine Accounts.bind hx (accounts_quiet (keeps_addSubscription (hown _ (Or.inl rfl))) hx)
      fun _ y hy _ _ => ?_
    exact Accounts.bind hy (accounts_quiet (keeps_logAction (hown _ (Or.inr rfl)) _ _ _) hy)
      fun _ z hz _ _ => Accounts.pure hz trivial

theorem accounts_subscribe (ht : Vetted env start t) (player : String) (aoid : ℤ) :
    Accounts (Vetted env start) i (subscribe env player aoid) t fun _ _ => True := by
  have haction : Quiet .insertAction := by simp [Quiet]
  refine Accounts.bind ht (accounts_getItem ht aoid) fun item u hu _ hitem => ?_
  cases item with
  | none => exact accounts_quiet (Coro.Frames.throw _) hu
  | some item =>
    refine Accounts.bind hu (accounts_quiet (keeps_isRegistered player) hu)
      fun registered v hv hlater _ => ?_
    cases registered with
    | false =>
      refine accounts_quiet ?_ hv
      exact Coro.Frames.bind (keeps_logAction haction _ _ _) fun _ => Coro.Frames.throw _
    | true =>
      refine Accounts.bind hv (accounts_quiet (keeps_getSubscription player aoid) hv)
        fun sub x hx hlater' _ => ?_
      cases sub with
      | some s => exact accounts_quiet (Coro.Frames.throw _) hx
      | none =>
        exact accounts_subscribeWithin hx player
          (((hitem item rfl).mono (hlater.turn i)).mono (hlater'.turn i))

theorem quiet_of_commandWrites {player : String} {name : Command} {gs : Regex.Groups}
    (hname : name ≠ .watchAoid ∧ name ≠ .overview) {op : Write}
    (h : CommandWrites player name gs op) : Quiet op := by
  rintro aoid rfl
  cases name with
  | watchAoid => exact hname.1 rfl
  | overview => exact hname.2 rfl
  | unregister | untrackAll | apikeyRevoke => cases h.2
  | register => rcases h with h | h <;> cases h
  | apikeyGenerate => rcases h with h | h | h <;> cases h
  | filterPrice | filterQl | filterClear =>
    obtain ⟨_, h⟩ := h
    cases h
  | unwatchAll => rcases h.2 with h | h <;> cases h
  | unwatchBulk | unwatch => rcases h with h | ⟨_, h⟩ <;> cases h
  | _ => exact h.elim

theorem accounts_dispatch (ht : Vetted env start t) (player : String) (name : Command)
    (gs : Regex.Groups) :
    Accounts (Vetted env start) i (Commands.dispatch env player name gs) t fun _ _ => True := by
  by_cases hname : name ≠ .watchAoid ∧ name ≠ .overview
  · exact accounts_quiet (Coro.Frames.mono (keeps_dispatch name gs) fun _ _ h =>
      h.mono fun _ => quiet_of_commandWrites hname) ht
  have hparse : Accounts (Vetted env start) i (parseAoid env (textOf gs 1)) t fun _ _ => True :=
    accounts_quiet (keeps_parseAoid _) ht
  rcases not_and_or.mp hname with hwatch | hoverview
  · obtain rfl : name = .watchAoid := not_not.mp hwatch
    refine Accounts.bind ht hparse fun aoid u hu _ _ => ?_
    exact Accounts.bind hu (accounts_subscribe hu player aoid) fun _ v hv _ _ =>
      Accounts.pure hv trivial
  · obtain rfl : name = .overview := not_not.mp hoverview
    refine Accounts.bind ht hparse fun aoid u hu _ _ => ?_
    refine Accounts.bind hu (accounts_getItem hu aoid) fun item v hv _ hitem => ?_
    cases item with
    | none => exact Accounts.pure hv trivial
    | some item =>
      refine Accounts.bind hv (accounts_watchItem hv (hitem item rfl)) fun _ x hx _ _ => ?_
      refine accounts_quiet ?_ hx
      exact Coro.Frames.bind (keeps_external fun _ => Silent.nil) fun _ => Coro.Frames.ofExcept _

theorem accounts_handleTell (ht : Vetted env start t) (nameForId : ℕ → Option String)
    (tell : InboundTell) :
    Accounts (Vetted env start) i (handleTell env nameForId tell) t fun _ _ => True := by
  have hsilent : ∀ w w', Steps (fun _ => False) w w' → Steps Quiet w w' :=
    fun _ _ h => h.mono fun _ => False.elim
  have hsetting : Quiet .setting := by simp [Quiet]
  refine accounts_tell hsilent ht (accounts_quiet (keeps_handleAdminCommand hsetting _) ht)
    fun u hu _ => ?_
  exact accounts_selected hsilent hu fun name gs v _ hv _ => accounts_dispatch hv _ name gs

/-! The resync -/

theorem mem_addNew {aoids l : List ℤ} {a : ℤ} (h : a ∈ addNew aoids l) : a ∈ aoids ∨ a ∈ l := by
  rw [ResyncResult.addNew_removeAll] at h
  rcases List.mem_append.mp h with hold | hnew
  · exact Or.inl hold
  · exact Or.inr (List.mem_filter.mp (List.mem_eraseDups.mp hnew)).1

theorem accounts_fetchPages (ht : Vetted env start t) (sourceUrl : String) (count : ℤ)
    (pages : List ℕ) (fetched : ℕ) {aoids : List ℤ}
    (h : ∀ a ∈ aoids, Listed env (t.Turn i) a) :
    Accounts (Vetted env start) i (fetchPages env sourceUrl count pages fetched aoids) t
      fun r u => ∀ a ∈ r.2, Listed env (u.Turn i) a := by
  induction pages generalizing t fetched aoids with
  | nil => exact Accounts.pure ht h
  | cons page rest ih =>
    refine Accounts.bind ht (F := fun html u => ∀ text, html = some text → ∃ w url, u.Turn i w ∧
      env.fetchPage w.tick url = .ok (some text)) ?_ fun html u hu hlater hpage => ?_
    · refine accounts_external ht fun u hu _ html hhtml => ⟨?_, ?_⟩
      · exact vetted_quiet (Steps.noted Silent.nil) hu
      · rintro text rfl
        exact ⟨u.now, _, u.turn_now i _, hhtml⟩
    have hbefore : ∀ a ∈ aoids, Listed env (u.Turn i) a := fun a ha => (h a ha).mono (hlater.turn i)
    cases html with
    | none => exact Accounts.pure hu hbefore
    | some html =>
      refine Accounts.ofExcept_bind hu fun found hfound => ?_
      split
      · exact Accounts.pure hu hbefore
      · obtain ⟨w, url, hturn, htext⟩ := hpage html rfl
        have hnow : ∀ a ∈ addNew aoids found, Listed env (u.Turn i) a := by
          intro a ha
          rcases mem_addNew ha with hold | hnew
          · exact hbefore a hold
          · exact ⟨w, url, html, found, hturn, htext, hfound, hnew⟩
        dsimp only
        split
        · exact Accounts.pure hu hnow
        · exact ih hu _ hnow

theorem accounts_lookupItems (ht : Vetted env start t) (aoids : List ℤ) :
    Accounts (Vetted env start) i (lookupItems env aoids) t fun answers u =>
      ∀ a item, (a, some item) ∈ answers → a ∈ aoids ∧ Answered env (u.Turn i) a item := by
  unfold lookupItems
  induction aoids generalizing t with
  | nil => exact Accounts.pure ht fun a item h => absurd h List.not_mem_nil
  | cons aoid rest ih =>
    rw [List.mapM_cons]
    refine Accounts.bind ht (F := fun answer u => ∀ a item, answer = (a, some item) → a = aoid ∧
      Answered env (u.Turn i) a item) ?_ fun answer u hu _ hanswer => ?_
    · refine Accounts.bind ht (accounts_getItem ht aoid) fun item u hu _ hitem => ?_
      refine Accounts.pure hu fun a found h => ?_
      obtain ⟨rfl, rfl⟩ := Prod.mk.inj h
      exact ⟨rfl, hitem found rfl⟩
    · refine Accounts.bind hu (ih hu) fun answers v hv hlater hrest => Accounts.pure hv ?_
      intro a item hmem
      rcases List.mem_cons.mp hmem with heq | hmem
      · obtain ⟨rfl, hfound⟩ := hanswer a item heq.symm
        exact ⟨List.mem_cons_self, hfound.mono (hlater.turn i)⟩
      · obtain ⟨hin, hfound⟩ := hrest a item hmem
        exact ⟨List.mem_cons_of_mem aoid hin, hfound⟩

theorem accounts_recordLookups (ht : Vetted env start t) (answers : List (ℤ × Option Item)) :
    Accounts (Vetted env start) i (recordLookups env answers) t fun resolved _ =>
      ∀ a item, (a, item) ∈ resolved → (a, some item) ∈ answers := by
  have hbackoff : Quiet .backoff := by simp [Quiet]
  induction answers generalizing t with
  | nil => exact Accounts.pure ht fun a item h => absurd h List.not_mem_nil
  | cons answer rest ih =>
    obtain ⟨aoid, item⟩ := answer
    cases item with
    | none =>
      refine Accounts.bind ht (accounts_quiet (keeps_recordFailure hbackoff aoid) ht)
        fun _ u hu _ _ => ?_
      refine (ih hu).since hu fun resolved _ _ h a item hmem => ?_
      exact List.mem_cons_of_mem _ (h a item hmem)
    | some item =>
      refine Accounts.bind ht (accounts_quiet (keeps_recordSuccess hbackoff aoid) ht)
        fun _ u hu _ _ => ?_
      refine Accounts.bind hu (ih hu) fun resolved v hv _ h => Accounts.pure hv ?_
      intro a item' hmem
      rcases List.mem_cons.mp hmem with heq | hmem
      · obtain ⟨rfl, rfl⟩ := Prod.mk.inj heq
        exact List.mem_cons_self
      · exact List.mem_cons_of_mem _ (h a item' hmem)

/-- What a resync tracks is listed and known. -/
def Resolved (env : Env) (i : ι) (t : Recorded ι World) (resolved : List (ℤ × Item)) : Prop :=
  ∀ a item, (a, item) ∈ resolved → Listed env (t.Turn i) a ∧ Answered env (t.Turn i) a item

theorem accounts_dueForRetry (ht : Vetted env start t) (aoids : List ℤ) :
    Accounts (Vetted env start) i (AodbBackoffRepo.dueForRetry env aoids) t
      fun due _ => due ⊆ aoids := by
  unfold AodbBackoffRepo.dueForRetry
  split
  · exact Accounts.pure ht (List.nil_subset aoids)
  · refine Accounts.bind ht (accounts_quiet (keeps_external fun _ => Silent.nil) ht)
      fun now u hu _ _ => ?_
    refine Accounts.bind hu (accounts_quiet (keeps_query Silent.nil) hu) fun held v hv _ _ => ?_
    exact Accounts.pure hv fun a ha => (List.mem_filter.mp ha).1

theorem accounts_resolveItems (ht : Vetted env start t) {aoids : List ℤ}
    (h : ∀ a ∈ aoids, Listed env (t.Turn i) a) :
    Accounts (Vetted env start) i (resolveItems env aoids) t fun resolved u =>
      Resolved env i u resolved := by
  unfold resolveItems
  split
  · exact Accounts.pure ht fun a item hmem => absurd hmem List.not_mem_nil
  · refine Accounts.bind ht (accounts_dueForRetry ht aoids) fun due u hu hlater hdue => ?_
    refine Accounts.bind hu (accounts_lookupItems hu _) fun answers v hv hlater' hanswers => ?_
    have hlisted : ∀ a item, (a, some item) ∈ answers →
        Listed env (v.Turn i) a ∧ Answered env (v.Turn i) a item := by
      intro a item hmem
      obtain ⟨hin, hanswered⟩ := hanswers a item hmem
      have hold := h a (hdue ((env.idOrder_perm due).mem_iff.mp hin))
      exact ⟨(hold.mono (hlater.turn i)).mono (hlater'.turn i), hanswered⟩
    refine (accounts_recordLookups hv answers).since hv fun resolved x hlast h a item hmem => ?_
    obtain ⟨hold, hanswered⟩ := hlisted a item (h a item hmem)
    exact ⟨hold.mono (hlast.turn i), hanswered.mono (hlast.turn i)⟩

theorem Resolved.later {resolved : List (ℤ × Item)} (h : Resolved env i t resolved)
    (hlater : Later t u) : Resolved env i u resolved := by
  intro a item hmem
  obtain ⟨hlisted, hanswered⟩ := h a item hmem
  exact ⟨hlisted.mono (hlater.turn i), hanswered.mono (hlater.turn i)⟩

theorem accounts_trackResolved (ht : Vetted env start t) (existing : List ℤ)
    {resolved : List (ℤ × Item)} (h : Resolved env i t resolved) :
    Accounts (Vetted env start) i (trackResolved env existing resolved) t fun _ _ => True := by
  induction resolved generalizing t with
  | nil => exact Accounts.pure ht trivial
  | cons r rest ih =>
    obtain ⟨aoid, item⟩ := r
    obtain ⟨hlisted, hanswered⟩ := h aoid item List.mem_cons_self
    have hrest : Resolved env i t rest := fun a item hmem => h a item (List.mem_cons_of_mem _ hmem)
    refine Accounts.bind ht (accounts_upsertWatch ht hanswered fun _ => hlisted)
      fun _ u hu hlater _ => ?_
    have hrest' := hrest.later hlater
    dsimp only
    split
    · refine Accounts.bind hu (accounts_quiet (keeps_announceTracked _ _) hu)
        fun _ v hv hlater' _ => ?_
      exact ih hv (hrest'.later hlater')
    · exact ih hu hrest'

theorem accounts_trackRanked (ht : Vetted env start t) (pagesFetched : ℕ) {aoids : List ℤ}
    (h : ∀ a ∈ aoids, Listed env (t.Turn i) a) :
    Accounts (Vetted env start) i (trackRanked env pagesFetched aoids) t fun _ _ => True := by
  have hquiet : Quiet .unflag ∧ Quiet .setting := by simp [Quiet]
  refine Accounts.bind ht (accounts_resolveItems ht h) fun resolved u hu _ hresolved => ?_
  refine Accounts.bind hu (accounts_quiet (keeps_unflagAutotrackNotIn hquiet.1 _) hu)
    fun _ v hv hlater _ => ?_
  refine Accounts.bind hv (accounts_quiet (keeps_existingAoids _) hv)
    fun existing x hx hlater' _ => ?_
  refine Accounts.bind hx (accounts_trackResolved hx existing
    ((hresolved.later hlater).later hlater')) fun _ y hy _ _ => ?_
  refine accounts_quiet ?_ hy
  refine Coro.Frames.bind (keeps_external fun _ => Silent.nil) fun now => ?_
  refine Coro.Frames.bind (keeps_set hquiet.2 _ _) fun _ => ?_
  exact Coro.Frames.bind (keeps_announceBackground _) fun _ => Coro.Frames.pure _

/-- A resync flags what a page listed and the item service knew. -/
theorem accounts_sync (ht : Vetted env start t) :
    Accounts (Vetted env start) i (syncTopTradedItems env) t fun _ _ => True := by
  refine Accounts.bind ht (accounts_quiet (keeps_getBool _) ht) fun on u hu _ _ => ?_
  cases on with
  | false => exact Accounts.pure hu trivial
  | true =>
    refine Accounts.bind hu (accounts_quiet (keeps_getInt _) hu) fun count u hu _ _ => ?_
    split
    · exact Accounts.pure hu trivial
    · refine Accounts.ofExcept_bind hu fun pages _ => ?_
      refine Accounts.bind hu (accounts_quiet (keeps_getStr _) hu) fun url u hu _ _ => ?_
      refine Accounts.bind hu (accounts_fetchPages hu _ _ _ _ fun a ha => absurd ha List.not_mem_nil)
        fun r u hu _ hlisted => ?_
      dsimp only
      split
      · exact Accounts.pure hu trivial
      · refine Accounts.bind hu (accounts_trackRanked hu _ fun a ha => ?_)
          fun _ v hv _ _ => Accounts.pure hv trivial
        exact hlisted a (List.mem_of_mem_take ha)

/-! Tasks -/

section Tasks
variable {app : App}

/-- The requests that track items. -/
def Tracks : Request → Prop
  | .subscribe _ _ | .startWatching _ | .triggerAutotrack => True
  | _ => False

theorem quiet_of_requestWrites {request : Request} (hquiet : ¬ Tracks request) {op : Write}
    (h : RequestWrites request op) : Quiet op := by
  rintro aoid rfl
  cases request with
  | subscribe | startWatching | triggerAutotrack => exact hquiet trivial
  | register | unsubscribe => rcases h with h | h <;> cases h
  | updateSetting | stopTracking | updateFilter | clearFilter => cases h
  | bulkUnsubscribe => rcases h with h | ⟨_, _, h⟩ <;> cases h
  | unsubscribeAll => rcases h.2 with h | h <;> cases h
  | unregister | untrackAll => cases h.2
  | triggerPoll =>
    rcases h with ⟨_, h⟩ | h | ⟨_, _, h⟩
    · cases h
    · cases h
    · rcases h with (h | h | h | ⟨_, h | h⟩ | h) | h <;> cases h
  | _ => exact h.elim

theorem accounts_handler {start : World} {t : Recorded ι World} (ht : Vetted app.env start t)
    (request : Request) :
    Accounts (Vetted app.env start) i (HttpRoutes.handler app request) t fun _ _ => True := by
  by_cases htracks : Tracks request
  · cases request with
    | subscribe player aoid =>
      exact Accounts.bind ht (accounts_subscribe ht player aoid) fun _ u hu _ _ =>
        Accounts.pure hu trivial
    | startWatching aoid =>
      refine Accounts.bind ht (accounts_getItem ht aoid) fun item u hu _ hitem => ?_
      cases item with
      | none => exact accounts_quiet (Coro.Frames.throw _) hu
      | some item =>
        exact Accounts.bind hu (accounts_watchItem hu (hitem item rfl)) fun _ v hv _ _ =>
          Accounts.pure hv trivial
    | triggerAutotrack =>
      show Accounts (Vetted app.env start) i
        (HttpRoutes.onBot app (syncTopTradedItems app.env) .triggered) t _
      unfold HttpRoutes.onBot
      split
      · exact accounts_quiet (Coro.Frames.pure _) ht
      · exact Accounts.bind ht (accounts_sync ht) fun _ v hv _ _ => Accounts.pure hv trivial
    | _ => exact htracks.elim
  · exact accounts_quiet (Coro.Frames.mono (keeps_handler app request) fun _ _ h =>
      h.mono fun _ => quiet_of_requestWrites htracks) ht

theorem accounts_program {start : World} {t : Recorded ι World} (ht : Vetted app.env start t)
    (task : Task) :
    Accounts (Vetted app.env start) i (program app task) t fun _ _ => True := by
  cases task with
  | startup => exact accounts_quiet (SettingTypes.keeps_seedDefaults (by simp [Quiet])) ht
  | activity a =>
    cases a with
    | poll =>
      refine accounts_quiet (Coro.Frames.mono (keeps_program (.activity .poll)) fun _ _ h =>
        h.mono fun op hop => ?_) ht
      exact @quiet_of_requestWrites .triggerPoll id op hop
    | sync => exact accounts_discarded (accounts_sync ht) ht
    | online player =>
      exact accounts_discarded (accounts_quiet (keeps_deliverPendingAlerts (by simp [Quiet])) ht) ht
    | tell nameForId tell => exact accounts_handleTell ht nameForId tell
    | request xApiKey request =>
      have hguard : Keeps Quiet (HttpRoutes.checkGuard app.env xApiKey (guardOf request)) :=
        HttpAccess.keeps_checkGuard (by simp [Quiet]) _ _
      exact accounts_discarded (accounts_serve_open xApiKey ht hguard fun u hu =>
        accounts_handler hu request) ht

variable [DecidableEq ι]

/-- However cycles, resyncs, commands and requests interleave and fail: a row of the watch list
either still says of its item what a row at the start said, or its name, quality and icon are
those of one answer of the item service for its id; and if it is flagged as auto-tracked, its
item was flagged at the start or is listed on a page that a resync fetched. -/
theorem watch_rows_vetted (app : App) (tasks : ι → Task) (w : World) (schedule : List ι) :
    ∀ row' ∈ (afterwards app tasks w schedule).db.watch,
      ((∃ row ∈ w.db.watch, SameItem row row') ∨ ∃ i item,
        Answered app.env (TurnOf app tasks w schedule i) row'.aoid item ∧ Describes item row') ∧
      (row'.autoTracked = true →
        (∃ row ∈ w.db.watch, row.aoid = row'.aoid ∧ row.autoTracked = true) ∨
          ∃ i, Listed app.env (TurnOf app tasks w schedule i) row'.aoid) := by
  obtain ⟨t, hnow, hturns, hvetted⟩ := traced (vetted_start app.env w)
    (fun i => accounts_program (vetted_start app.env w) (tasks i)) schedule
  rw [← hnow]
  intro row' hrow'
  constructor
  · refine (hvetted.described row' hrow').imp_right fun h => ?_
    obtain ⟨i, item, hanswered, hdescribes⟩ := h
    exact ⟨i, item, hanswered.mono (hturns i), hdescribes⟩
  · intro hflag
    refine (hvetted.flagged row' hrow' hflag).imp_right fun h => ?_
    obtain ⟨i, hlisted⟩ := h
    exact ⟨i, hlisted.mono (hturns i)⟩

end Tasks

/-- A resync of the page that lists item 7, while Bob comes online. -/
def listingApp : App := { HttpAccess.calmApp with env := ResyncResult.listing }

def syncTasks : Bool → Task
  | true => .activity .sync
  | false => .activity (.online "bob")

def syncTurns : List Bool := [false, true, false] ++ List.replicate 20 true

def ringRow : MarketWatch := ⟨7, "Ring", 10, none, 0, none, true⟩

theorem ring_vetted :
    ((∃ row ∈ ResyncResult.listed.db.watch, SameItem row ringRow) ∨ ∃ i item,
      Answered listingApp.env (TurnOf listingApp syncTasks ResyncResult.listed syncTurns i) 7 item ∧
        Describes item ringRow) ∧
    (ringRow.autoTracked = true →
      (∃ row ∈ ResyncResult.listed.db.watch, row.aoid = 7 ∧ row.autoTracked = true) ∨
        ∃ i, Listed listingApp.env
          (TurnOf listingApp syncTasks ResyncResult.listed syncTurns i) 7) :=
  watch_rows_vetted listingApp syncTasks ResyncResult.listed syncTurns ringRow (by decide +kernel)

end AoMarket.WatchOrigin
