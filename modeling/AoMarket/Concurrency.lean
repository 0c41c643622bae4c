import AoMarket.Reliance
import AoMarket.SettingTypes
import AoMarket.WatchExpiry

/-!
All that the process runs against the database, side by side: the seeding at startup, poll
and resync cycles, deliveries, tells and requests, any number of each. Every awaited call of
a task is one turn, and turns follow each other in any order.
-/

namespace AoMarket.Concurrency

open Coroutine Interleaving Reliance Database Environment SettingsRepo Commands Runner Writes
  ServiceWrites ChatWrites HttpRoutes HttpWrites WatchExpiry

inductive Task where
  | startup
  | activity (a : Activity)

def program (app : App) : Task → M Unit
  | .startup => seedDefaults app.env
  | .activity .poll => do let _ ← Polling.pollMarket app.env
  | .activity .sync => do let _ ← AutoTrack.syncTopTradedItems app.env
  | .activity (.online player) => do let _ ← Polling.deliverPendingAlerts app.env player
  | .activity (.tell nameForId tell) => handleTell app.env nameForId tell
  | .activity (.request xApiKey request) => do let _ ← serve app xApiKey request

variable {ι : Type} [DecidableEq ι]

/-- A task that has had no turn yet has not begun. -/
def process (app : App) (tasks : ι → Task) (w : World) : Pool ι Call World PyErr Unit :=
  Pool.start w fun i => program app (tasks i)

def afterwards (app : App) (tasks : ι → Task) (w : World) (schedule : List ι) : World :=
  ((process app tasks w).exec schedule).shared

/-- The worlds that the turns of one task began in. -/
def TurnOf (app : App) (tasks : ι → Task) (w : World) (schedule : List ι) (i : ι) (u : World) :
    Prop :=
  ∃ before after, schedule = before ++ i :: after ∧ u = afterwards app tasks w before

/-! What the tasks write -/

def TaskWrites : Task → Write → Prop
  | .startup, op => op = .setting
  | .activity .poll, op => PollCycleWrites op
  | .activity .sync, op => SyncWrites op
  | .activity (.online player), op => op = .deleteAlerts player
  | .activity (.tell nameForId tell), op =>
    TellWrites (playerName nameForId tell.senderId) tell.message op
  | .activity (.request _ request), op => op = .touchKey ∨ RequestWrites request op

section Programs
variable {app : App} {A : Write → Prop} {α : Type}

theorem keeps_discarded {p : M α} (h : Keeps A p) : Keeps A (do let _ ← p : M Unit) :=
  Coro.Frames.bind h fun _ => Coro.Frames.pure ()

theorem keeps_serve (xApiKey : Option String) (request : Request) :
    Keeps (TaskWrites (.activity (.request xApiKey request))) (serve app xApiKey request) := by
  refine Coro.Frames.handle ?_ HttpAccess.keeps_marketErrorHandler
  refine Coro.Frames.bind (HttpAccess.keeps_checkGuard (Or.inl rfl) _ _) fun stopped => ?_
  cases stopped with
  | some response => exact Coro.Frames.pure _
  | none => exact Coro.Frames.mono (keeps_handler app request) fun _ _ h => h.mono fun _ => Or.inr

/-- A task writes nothing but what the table of its kind allows. -/
theorem keeps_program (task : Task) : Keeps (TaskWrites task) (program app task) := by
  cases task with
  | startup => exact SettingTypes.keeps_seedDefaults rfl
  | activity a =>
    cases a with
    | poll => exact keeps_discarded keeps_pollMarket
    | sync => exact keeps_discarded keeps_sync
    | online player => exact keeps_discarded (keeps_deliverPendingAlerts rfl)
    | tell nameForId tell => exact keeps_handleTell nameForId tell
    | request xApiKey request => exact keeps_discarded (keeps_serve xApiKey request)

/-- What each write of each task does to the database, and composes, any schedule does. -/
theorem afterwards_rel {tasks : ι → Task} {R : Db → Db → Prop} (hrefl : ∀ db, R db db)
    (htrans : ∀ {a b c}, R a b → R b c → R a c)
    (hR : ∀ i op db db' note, TaskWrites (tasks i) op → Effect op db db' note → R db db')
    (w : World) (schedule : List ι) : R w.db (afterwards app tasks w schedule).db := by
  refine exec_frames (S := fun a b : World => R a.db b.db) (fun a => hrefl a.db) htrans ?_ schedule
  intro i
  refine Coro.Frames.mono (keeps_program (tasks i)) fun w w' hs => ?_
  obtain ⟨_, note, _, ⟨hdb, _⟩ | ⟨op, hop, heffect⟩⟩ := hs
  · rw [hdb]
    exact hrefl w.db
  · exact hR i op _ _ note hop heffect

end Programs

end AoMarket.Concurrency
