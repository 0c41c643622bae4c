import AoMarket.BotThread
import AoMarket.LoginAgreement

/-!
What the threads of the API can see of the bot. The handle is filled in one field at a
time, and `ready` is set last: whoever sees it set finds a loop, a bot that has logged in
and its tasks. So nothing is handed to the loop before that, nobody comes upon a field
that is still None, and a bot that failed to start is never ready.
-/

namespace AoMarket.Publication

open Coroutine Interleaving Reliance Environment Login BotThread

structure Published (s : Handle) : Prop where
  loop : s.loop.isSome = true
  bot : s.bot = true
  character : s.conn.selected.isSome = true
  onTell : s.onTell = true
  tasks : s.tasks = true

structure Whole (s : Handle) : Prop where
  published : s.ready = true → Published s
  submitted : s.submitted ≠ [] → s.ready = true

/-- What is set stays set. -/
structure Later (s t : Handle) : Prop where
  loop : s.loop.isSome = true → t.loop.isSome = true
  bot : s.bot = true → t.bot = true
  character : s.conn.selected.isSome = true → t.conn.selected.isSome = true
  onTell : s.onTell = true → t.onTell = true
  tasks : s.tasks = true → t.tasks = true
  ready : s.ready = true → t.ready = true

theorem Later.refl (s : Handle) : Later s s := ⟨id, id, id, id, id, id⟩

theorem Later.trans (s t u : Handle) (h : Later s t) (h' : Later t u) : Later s u where
  loop hs := h'.loop (h.loop hs)
  bot hs := h'.bot (h.bot hs)
  character hs := h'.character (h.character hs)
  onTell hs := h'.onTell (h.onTell hs)
  tasks hs := h'.tasks (h.tasks hs)
  ready hs := h'.ready (h.ready hs)

theorem Published.mono {s t : Handle} (h : Published s) (hlater : Later s t) : Published t where
  loop := hlater.loop h.loop
  bot := hlater.bot h.bot
  character := hlater.character h.character
  onTell := hlater.onTell h.onTell
  tasks := hlater.tasks h.tasks

variable {s : Handle} {α : Type}

variable {E : ThreadErr → Prop}

end AoMarket.Publication
