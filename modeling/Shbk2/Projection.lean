import Shbk2.Sequential
import Shbk2.World

/-! Every session of the server lives the life of one connection. As long as no
new session is put at an address that something in the pool still refers to, each
step of the server is, seen from a session, a step of its connection or none. -/
namespace Shbk2
open Transition

theorem Conn.Inv.items {o : Object} {items : List Item} (inv : Inv (.live o items)) :
    items = [] ∨ ∃ item, items = [item] := by
  cases inv with
  | idle => exact .inl rfl
  | busy => exact .inr ⟨_, rfl⟩

/-- Items in any order are the items: there is at most one. -/
theorem Conn.Inv.perm {o : Object} {items others : List Item} (inv : Inv (.live o items))
    (perm : others.Perm items) : others = items := by
  rcases inv.items with rfl | ⟨item, rfl⟩
  · exact List.perm_nil.mp perm
  · exact List.perm_singleton.mp perm

namespace World
variable {pb : Protobuf} {db : Database}

/-- Each session is in a state of the connection it belongs to. -/
def Projects (pb : Protobuf) (w : World) : Prop :=
  ∀ addr o, w.heap addr = some o → o.self.addr = addr ∧
    ∃ eventType, Reachable (Conn.step pb) (Conn.init o.self eventType) (.live o (w.itemsAt addr))

/-- A new session is put where nothing in the pool points. -/
def Fresh : World → Action → Prop
  | w, .accept addr _ => w.itemsAt addr = []
  | _, _ => True

theorem Projects.inv {w : World} (projects : Projects pb w) {addr : Nat} {o : Object}
    (lives : w.heap addr = some o) : Conn.Inv (.live o (w.itemsAt addr)) := by
  obtain ⟨_, eventType, reached⟩ := projects addr o lives
  exact Conn.reachable_inv reached

theorem projects_init (workers : Nat) (table : List Bytes) : Projects pb (init workers table) := by
  intro addr o lives
  contradiction

section Modify
variable {heap : Nat → Option Object} {addr other : Nat} {f : Object → Object}

theorem update_same {object : Option Object} : Function.update heap addr object addr = object :=
  Function.update_self addr object heap

theorem update_other {object : Option Object} (differ : other ≠ addr) :
    Function.update heap addr object other = heap other := Function.update_of_ne differ object heap

theorem modify_same : modify heap addr f addr = (heap addr).map f := by
  rw [modify, update_same]

theorem modify_other (differ : other ≠ addr) : modify heap addr f other = heap other := by
  rw [modify, update_other differ]

theorem modify_id : modify heap addr id = heap := by
  rw [modify, Option.map_id, id, Function.update_eq_self]

end Modify

/-- A step that replaces one item of the pool by its successor. -/
structure Moves (w v : World) (x y : Item) : Prop where
  common : ∃ common, w.items.Perm (x :: common) ∧ v.items.Perm (y :: common)
  session : y.session = x.session

section Moves
variable {w v : World} {x y : Item} {o : Object}

theorem Moves.elsewhere (moves : Moves w v x y) {addr : Nat} (other : x.session.addr ≠ addr)
    (inv : Conn.Inv (.live o (w.itemsAt addr))) : v.itemsAt addr = w.itemsAt addr := by
  obtain ⟨common, before, after⟩ := moves.common
  have old := before.filter fun item => item.session.addr = addr
  have new := after.filter fun item => item.session.addr = addr
  rw [List.filter_cons_of_neg (by simpa using other)] at old
  rw [List.filter_cons_of_neg (by simpa [moves.session] using other)] at new
  exact inv.perm (new.trans old.symm)

theorem Moves.here (moves : Moves w v x y)
    (inv : Conn.Inv (.live o (w.itemsAt x.session.addr))) :
    w.itemsAt x.session.addr = [x] ∧ v.itemsAt x.session.addr = [y] := by
  obtain ⟨common, before, after⟩ := moves.common
  have old := before.filter fun item => item.session.addr = x.session.addr
  have new := after.filter fun item => item.session.addr = x.session.addr
  rw [List.filter_cons_of_pos (by simp)] at old
  rw [List.filter_cons_of_pos (by simp [moves.session])] at new
  have whole := inv.perm old.symm
  rcases inv.items with none | ⟨item, one⟩
  · exact absurd (whole.trans none) (List.cons_ne_nil _ _)
  · obtain ⟨rfl, alone⟩ := List.cons.inj (whole.trans one)
    rw [alone] at new
    exact ⟨one, List.perm_singleton.mp new⟩

/-- Seen from the session of the item, the step is one of its connection. -/
theorem Moves.projects (moves : Moves w v x y) {f : Object → Object}
    (heap : v.heap = modify w.heap x.session.addr f) (self : ∀ o, (f o).self = o.self)
    (steps : ∀ o, w.heap x.session.addr = some o →
      ∃ a, Conn.step pb (.live o [x]) a = some (.live (f o) [y]))
    (projects : Projects pb w) : Projects pb v := by
  intro addr p lives
  rw [heap] at lives
  by_cases here : addr = x.session.addr
  · subst here
    rw [modify_same] at lives
    obtain ⟨o, lived, rfl⟩ := Option.map_eq_some_iff.mp lives
    obtain ⟨owner, eventType, reached⟩ := projects _ o lived
    obtain ⟨before, after⟩ := moves.here (projects.inv lived)
    obtain ⟨a, stepped⟩ := steps o lived
    rw [self, after]
    rw [before] at reached
    exact ⟨owner, eventType, reached.next stepped⟩
  · rw [modify_other here] at lives
    obtain ⟨owner, eventType, reached⟩ := projects addr p lives
    rw [moves.elsewhere (Ne.symm here) (projects.inv lives)]
    exact ⟨owner, eventType, reached⟩

end Moves

theorem pool_task {waiting : List ReqEvent} {tasks others : List Task} {results : List ResEvent}
    {task : Task} (perm : tasks.Perm (task :: others)) :
    (pool waiting tasks results).Perm
      (.running task.event task.position :: pool waiting others results) := by
  have mapped := perm.map fun task => Item.running task.event task.position
  refine ((mapped.append_left _).append_right _).trans ?_
  rw [List.map_cons, List.append_assoc, pool, List.append_assoc]
  exact List.perm_middle

theorem pool_result {waiting : List ReqEvent} {tasks : List Task} {results : List ResEvent}
    {result : ResEvent} :
    (pool waiting tasks (results ++ [result])).Perm (.done result :: pool waiting tasks results) := by
  rw [pool, List.map_append, ← List.append_assoc]
  exact List.perm_append_singleton _ _

theorem pool_waiting {waiting more : List ReqEvent} {tasks : List Task} {results : List ResEvent} :
    (pool (waiting ++ more) tasks results).Perm
      (pool waiting tasks results ++ more.map .waiting) := by
  simp only [pool, List.map_append, List.append_assoc]
  refine List.Perm.append_left _ ?_
  rw [← List.append_assoc (tasks.map _)]
  exact List.perm_append_comm

section Steps
variable {w : World}

theorem moves_take {event : ReqEvent} {rest : List ReqEvent} {worker : Nat}
    (waiting : w.waiting = event :: rest) (idle : w.workers[worker]? = some none) :
    Moves w { w with
        waiting := rest
        workers := w.workers.set worker (some ⟨event, .start event.message⟩) }
      (.waiting event) (.running event (.start event.message)) := by
  refine ⟨⟨pool rest (Slots.held w.workers) w.results, ?_, ?_⟩, rfl⟩
  · rw [items, waiting]
    exact .refl _
  · exact pool_task (Slots.held_fill idle ⟨event, .start event.message⟩)

theorem moves_work {task : Task} {worker : Nat} (busy : w.workers[worker]? = some (some task))
    (heap : Nat → Option Object) (table : List Bytes) (position : Position) :
    Moves w { w with
        heap := heap
        workers := w.workers.set worker (some ⟨task.event, position⟩)
        table := table }
      (.running task.event task.position) (.running task.event position) :=
  ⟨⟨pool w.waiting (Slots.held (w.workers.set worker none)) w.results,
    pool_task (Slots.held_get busy), pool_task (Slots.held_change busy ⟨task.event, position⟩)⟩, rfl⟩

theorem moves_finish {event : ReqEvent} {response : Response} {worker : Nat}
    (busy : w.workers[worker]? = some (some ⟨event, .returned response⟩))
    (heap : Nat → Option Object) :
    Moves w { w with
        heap := heap
        workers := w.workers.set worker none
        results := w.results ++ [⟨event.session, response⟩] }
      (.running event (.returned response)) (.done ⟨event.session, response⟩) :=
  ⟨⟨pool w.waiting (Slots.held (w.workers.set worker none)) w.results,
    pool_task (Slots.held_get busy), pool_result⟩, rfl⟩

/-- What `handle_results` does to one session. -/
theorem foldl_writeResult (results : List ResEvent) (heap : Nat → Option Object) (addr : Nat) :
    results.foldl writeResult heap addr = (heap addr).map fun o =>
      (results.filter fun event => event.session.addr = addr).foldl
        (fun o event => NetGate.handleResult event o) o := by
  induction results generalizing heap with
  | nil => exact Option.map_id'.symm
  | cons event results ih =>
    rw [List.foldl_cons, ih, writeResult]
    by_cases here : addr = event.session.addr
    · subst here
      rw [modify_same, List.filter_cons_of_pos (by simp), Option.map_map]
      rfl
    · rw [modify_other here, List.filter_cons_of_neg (by simpa using Ne.symm here)]

theorem projects_handleResults (projects : Projects pb w) :
    Projects pb { w with heap := w.results.foldl writeResult w.heap, results := [] } := by
  intro addr p lives
  have written := (foldl_writeResult w.results w.heap addr).symm.trans lives
  obtain ⟨o, lived, rfl⟩ := Option.map_eq_some_iff.mp written
  obtain ⟨owner, eventType, reached⟩ := projects addr o lived
  have split : w.itemsAt addr = itemsAt { w with
      heap := w.results.foldl writeResult w.heap, results := [] } addr ++
        (w.results.filter fun event => event.session.addr = addr).map .done := by
    simp only [itemsAt, items, pool, List.filter_append, List.map_nil, List.append_nil,
      List.filter_map]
    rfl
  rcases (projects.inv lived).items with none | ⟨item, one⟩
  · rw [none] at split reached
    obtain ⟨rest, nothing⟩ := List.append_eq_nil_iff.mp split.symm
    rw [List.map_eq_nil_iff.mp nothing, rest]
    exact ⟨owner, eventType, reached⟩
  · rw [one] at split reached
    rcases List.append_eq_singleton_iff.mp split.symm with ⟨rest, single⟩ | ⟨rest, nothing⟩
    · obtain ⟨event, only, rfl⟩ := List.map_eq_singleton_iff.mp single
      rw [only, rest]
      exact ⟨owner, eventType, reached.next (a := .handleResult 0) rfl⟩
    · rw [List.map_eq_nil_iff.mp nothing, rest]
      exact ⟨owner, eventType, reached⟩

theorem callback_same {addr : Nat} {callback : NetGate.Callback} :
    (w.callback addr callback).heap addr = callback.object := update_same

theorem callback_other {addr other : Nat} {callback : NetGate.Callback} (differ : other ≠ addr) :
    (w.callback addr callback).heap other = w.heap other := update_other differ

/-- A callback on one session, where nothing was in flight if it pushed an event. -/
theorem projects_callback {addr : Nat} {o : Object} {callback : NetGate.Callback}
    (lived : w.heap addr = some o) (projects : Projects pb w)
    (own : ∀ event, callback.pushed = some event → event.session = o.self)
    (steps : ∃ a, Conn.step pb (.live o (w.itemsAt addr)) a =
      some (Conn.afterCallback callback (w.itemsAt addr)))
    (self : ∀ p, callback.object = some p → p.self = o.self) :
    Projects pb (w.callback addr callback) := by
  obtain ⟨owner, eventType, reached⟩ := projects addr o lived
  have items (other : Nat) : ((w.callback addr callback).itemsAt other).Perm
      (w.itemsAt other ++ (callback.pushed.toList.map .waiting).filter
        fun item => item.session.addr = other) := by
    have all : ((w.callback addr callback).items).Perm
        (w.items ++ callback.pushed.toList.map .waiting) := pool_waiting
    have filtered := all.filter fun item => item.session.addr = other
    rwa [List.filter_append] at filtered
  intro other p lives
  by_cases here : other = addr
  · subst here
    rw [callback_same] at lives
    obtain ⟨a, stepped⟩ := steps
    have next := reached.next stepped
    simp only [Conn.afterCallback, lives] at next
    have mine : (callback.pushed.toList.map Item.waiting).filter
        (fun item => item.session.addr = other) = callback.pushed.toList.map .waiting := by
      apply List.filter_eq_self.mpr
      intro item member
      obtain ⟨event, pushed, rfl⟩ := List.mem_map.mp member
      simp only [Item.session, own event (Option.mem_toList.mp pushed), owner, decide_true]
    have same := items other
    rw [mine] at same
    rw [(Conn.reachable_inv next).perm same, self p lives]
    exact ⟨owner, eventType, next⟩
  · rw [callback_other here] at lives
    obtain ⟨owner', eventType', reached'⟩ := projects other p lives
    have others : (callback.pushed.toList.map Item.waiting).filter
        (fun item => item.session.addr = other) = [] := by
      apply List.filter_eq_nil_iff.mpr
      intro item member
      obtain ⟨event, pushed, rfl⟩ := List.mem_map.mp member
      simp only [Item.session, own event (Option.mem_toList.mp pushed), owner, decide_eq_true_eq]
      exact Ne.symm here
    have same := items other
    rw [others, List.append_nil] at same
    rw [(projects.inv lives).perm same]
    exact ⟨owner', eventType', reached'⟩

/-- What the read callback pushes and leaves belongs to the session it ran for. -/
theorem reqCallback_own (pb : Protobuf) (push : ReqEvent → Bool) {o : Object} {items : List Item}
    (inv : Conn.Inv (.live o items)) :
    (∀ event, (NetGate.reqCallback pb push o).pushed = some event → event.session = o.self) ∧
      ∀ p, (NetGate.reqCallback pb push o).object = some p → p.self = o.self := by
  cases inv with
  | busy _ handling =>
    rw [NetGate.reqCallback_handling handling]
    exact ⟨nofun, nofun⟩
  | idle rep parsing =>
    have answered := NetGate.reqCallback_answered pb push rep parsing
    generalize NetGate.reqCallback pb push o = callback at answered ⊢
    cases answered with
    | rejects | refuses => exact ⟨nofun, nofun⟩
    | waits t => exact ⟨nofun, fun p same => Option.some.inj same ▸ rfl⟩
    | accepts type body rest parse t =>
      exact ⟨fun event same => Option.some.inj same ▸ rfl, fun p same => Option.some.inj same ▸ rfl⟩

theorem errCallback_none (events : UInt16) : (NetGate.errCallback events).object = none ∧
    (NetGate.errCallback events).pushed = none := by
  unfold NetGate.errCallback
  repeat' split
  all_goals exact ⟨rfl, rfl⟩

end Steps

/-- Each step of the server keeps every session a state of its connection. -/
theorem projects_step (w : World) (a : Action) (v : World) (projects : Projects pb w)
    (fresh : Fresh w a) (enabled : step pb db w a = some v) : Projects pb v := by
  cases stepped_of_step enabled with
  | accept addr eventType free =>
    intro other p lives
    by_cases here : other = addr
    · subst here
      obtain rfl := Option.some.inj (update_same.symm.trans lives)
      have start : Reachable (Conn.step pb) (Conn.init ⟨other, w.allocations⟩ eventType)
          (.live (NetGate.listenerCallback ⟨other, w.allocations⟩ eventType) (w.itemsAt other)) := by
        rw [show w.itemsAt other = [] from fresh]
        exact .refl _
      exact ⟨rfl, eventType, start⟩
    · exact projects other p ((update_other here).symm.trans lives)
  | arrive addr bytes o lived some =>
    intro other p lives
    by_cases here : other = addr
    · subst here
      have changed := modify_same.symm.trans lives
      rw [lived] at changed
      obtain rfl := Option.some.inj changed
      obtain ⟨owner, eventType, reached⟩ := projects other o lived
      exact ⟨owner, eventType, reached.next (a := .arrive bytes) (if_neg some)⟩
    · exact projects other p ((modify_other here).symm.trans lives)
  | reqCallback addr o lived unread =>
    obtain ⟨own, self⟩ := reqCallback_own pb (push w.waiting.length) (projects.inv lived)
    exact projects_callback lived projects own ⟨.reqCallback w.waiting.length, if_pos unread⟩ self
  | errCallback addr events o lived =>
    obtain ⟨gone, none⟩ := errCallback_none events
    refine projects_callback lived projects ?_ ⟨.errCallback events, rfl⟩ ?_
    · simp [none]
    · simp [gone]
  | take worker event rest waiting idle =>
    exact (moves_take waiting idle).projects (f := id) modify_id.symm (fun _ => rfl)
      (fun o lived => ⟨.take 0, rfl⟩) projects
  | work worker rand garbage outcome event position busy =>
    refine (moves_work busy _ _ _).projects rfl (fun _ => rfl) (fun o lived => ?_) projects
    have found : w.heap event.session.addr = some o := lived
    rw [found]
    exact ⟨.work 0 rand (db.call w.table position.statement outcome).2, rfl⟩
  | finish worker event response busy =>
    exact (moves_finish busy _).projects rfl (fun _ => rfl) (fun o lived => ⟨.finish 0, rfl⟩) projects
  | handleResults => exact projects_handleResults projects

end World
end Shbk2
