import Shbk2.Lib.Simulation
import Shbk2.Projection
import Shbk2.WireFormat

/-! Pointers to deleted sessions. A session is deleted by the callbacks of its
connection, which do not look for events that still point to it: there is one
exactly while the session is in the handling state. -/
namespace Shbk2.World
open Transition

/-- A pointer to a session that has not been deleted since. -/
def Alive (heap : Nat → Option Object) (p : SessionPtr) : Prop :=
  ∃ o, heap p.addr = some o ∧ o.self = p

def NoDangling (w : World) : Prop := ∀ item ∈ w.items, Alive w.heap item.session

/-- The session pointers that a step of a worker or of `handle_results` goes through. -/
def derefs (w : World) : Action → List SessionPtr
  | .work worker _ _ _ => (w.workers[worker]?.join.map (·.event.session)).toList
  | .handleResults => w.results.map (·.session)
  | _ => []

/-- A step reads and writes live sessions only: a result goes to the session that
sent its request. -/
def Accesses (w : World) (a : Action) : Prop := ∀ p ∈ w.derefs a, Alive w.heap p

/-- No callback that can delete its session runs while a request is handled. -/
def Spares (w : World) : Action → Prop
  | .reqCallback addr | .errCallback addr _ =>
    ∀ o, w.heap addr = some o → o.session.stat ≠ .handling
  | _ => True

instance (w : World) (a : Action) : Decidable (w.Spares a) :=
  match a with
  | .reqCallback addr | .errCallback addr _ =>
    inferInstanceAs (Decidable (∀ o ∈ w.heap addr, o.session.stat ≠ .handling))
  | .accept _ _ | .arrive _ _ | .take _ | .work _ _ _ _ | .finish _ | .handleResults => isTrue trivial

section Heap
variable {heap : Nat → Option Object} {addr : Nat} {p : SessionPtr} {f : Object → Object}

theorem Alive.modify (self : ∀ o, (f o).self = o.self) (alive : Alive heap p) :
    Alive (World.modify heap addr f) p := by
  obtain ⟨o, lives, same⟩ := alive
  by_cases here : p.addr = addr
  · refine ⟨f o, ?_, (self o).trans same⟩
    rw [← here, modify_same, lives]
    rfl
  · exact ⟨o, (modify_other here).trans lives, same⟩

theorem Alive.writeResults (results : List ResEvent) (alive : Alive heap p) :
    Alive (results.foldl writeResult heap) p := by
  induction results generalizing heap with
  | nil => exact alive
  | cons event results ih =>
    exact ih (alive.modify fun _ => rfl)

/-- A new session is put where no live one was. -/
theorem Alive.accept {object : Option Object} (free : heap addr = none) (alive : Alive heap p) :
    Alive (Function.update heap addr object) p := by
  obtain ⟨o, lives, same⟩ := alive
  have other : p.addr ≠ addr := by
    intro here
    simp [here, free] at lives
  exact ⟨o, (update_other other).trans lives, same⟩

end Heap

section Steps
variable {pb : Protobuf} {db : Database} {w v : World}

theorem mem_itemsAt {item : Item} {addr : Nat} :
    item ∈ w.itemsAt addr ↔ item ∈ w.items ∧ item.session.addr = addr := by
  rw [itemsAt, List.mem_filter, decide_eq_true_eq]

/-- Where no session lives, nothing in the pool points. -/
theorem fresh_of_noDangling (safe : NoDangling w) {addr : Nat} (free : w.heap addr = none) :
    w.itemsAt addr = [] := by
  apply List.eq_nil_iff_forall_not_mem.mpr
  intro item member
  obtain ⟨inPool, here⟩ := mem_itemsAt.mp member
  obtain ⟨o, lives, _⟩ := safe item inPool
  rw [here, free] at lives
  contradiction

theorem Moves.noDangling {x y : Item} (moves : Moves w v x y) (safe : NoDangling w)
    (kept : ∀ p, Alive w.heap p → Alive v.heap p) : NoDangling v := by
  obtain ⟨common, before, after⟩ := moves.common
  intro item member
  apply kept
  rcases List.mem_cons.mp (after.mem_iff.mp member) with rfl | old
  · rw [moves.session]
    exact safe x (before.mem_iff.mpr List.mem_cons_self)
  · exact safe item (before.mem_iff.mpr (List.mem_cons_of_mem _ old))

/-- Nothing points to a session that is not handling a request. -/
theorem itemsAt_parsing {addr : Nat} {o : Object} (projects : Projects pb w)
    (lived : w.heap addr = some o) (parsing : o.session.stat ≠ .handling) : w.itemsAt addr = [] := by
  cases same : w.itemsAt addr with
  | nil => rfl
  | cons item rest =>
    have inv := projects.inv lived
    rw [same] at inv
    cases inv with
    | busy _ handling => exact absurd handling parsing

theorem items_callback {addr : Nat} {callback : NetGate.Callback} :
    (w.callback addr callback).items.Perm (w.items ++ callback.pushed.toList.map .waiting) :=
  pool_waiting

/-- The event that a callback pushed points to its own session. -/
theorem itemsAt_callback {addr : Nat} {callback : NetGate.Callback}
    (own : ∀ event, callback.pushed = some event → event.session.addr = addr) (other : Nat) :
    ((w.callback addr callback).itemsAt other).Perm (w.itemsAt other ++
      if other = addr then callback.pushed.toList.map .waiting else []) := by
  have all : (w.callback addr callback).items.Perm
    (w.items ++ callback.pushed.toList.map .waiting) := items_callback
  have here : ∀ item ∈ callback.pushed.toList.map Item.waiting, item.session.addr = addr := by
    intro item member
    obtain ⟨event, pushed, rfl⟩ := List.mem_map.mp member
    exact own event (Option.mem_toList.mp pushed)
  have mine : (callback.pushed.toList.map Item.waiting).filter
      (fun item => item.session.addr = other) =
        if other = addr then callback.pushed.toList.map .waiting else [] := by
    split
    · rename_i same
      exact List.filter_eq_self.mpr fun item member =>
        decide_eq_true ((here item member).trans same.symm)
    · rename_i differ
      exact List.filter_eq_nil_iff.mpr fun item member same =>
        differ ((of_decide_eq_true same).symm.trans (here item member))
  rw [← mine, itemsAt, itemsAt, ← List.filter_append]
  exact all.filter _

/-- The callback deletes the session, or leaves it there for the event it pushed. -/
theorem noDangling_callback {addr : Nat} {o : Object} {callback : NetGate.Callback}
    (safe : NoDangling w) (owner : o.self.addr = addr)
    (unused : w.itemsAt addr = [])
    (own : ∀ event, callback.pushed = some event → event.session = o.self)
    (self : ∀ p, callback.object = some p → p.self = o.self)
    (gone : callback.object = none → callback.pushed = none) :
    NoDangling (w.callback addr callback) := by
  intro item member
  rcases List.mem_append.mp (items_callback.mem_iff.mp member) with old | new
  · have other : item.session.addr ≠ addr := by
      intro here
      exact List.not_mem_nil (unused ▸ mem_itemsAt.mpr ⟨old, here⟩)
    obtain ⟨p, lives, same⟩ := safe item old
    exact ⟨p, (callback_other other).trans lives, same⟩
  · obtain ⟨event, pushed, rfl⟩ := List.mem_map.mp new
    have pushed := Option.mem_toList.mp pushed
    cases left : callback.object with
    | none => exact absurd ((gone left).symm.trans pushed) nofun
    | some p =>
      have mine : event.session = o.self := own event pushed
      refine ⟨p, ?_, (self p left).trans mine.symm⟩
      rw [Item.session, mine, owner, callback_same, left]

theorem reqCallback_gone {o : Object} {items : List Item} {push : ReqEvent → Bool}
    (inv : Conn.Inv (.live o items)) (gone : (NetGate.reqCallback pb push o).object = none) :
    (NetGate.reqCallback pb push o).pushed = none := by
  cases inv with
  | busy _ handling =>
    rw [NetGate.reqCallback_handling handling]
  | idle rep parsing =>
    have answered := NetGate.reqCallback_answered pb push rep parsing
    generalize NetGate.reqCallback pb push o = callback at answered gone ⊢
    cases answered with
    | rejects | refuses | waits => rfl
    | accepts => contradiction

theorem noDangling_step (w : World) (a : Action) (v : World) (before : Projects pb w ∧ NoDangling w)
    (spares : Spares w a) (enabled : step pb db w a = some v) : Projects pb v ∧ NoDangling v := by
  obtain ⟨projects, safe⟩ := before
  have stepped := stepped_of_step enabled
  have fresh : Fresh w a := by
    cases stepped with
    | accept addr eventType free => exact fresh_of_noDangling safe free
    | _ => trivial
  refine ⟨projects_step w a v projects fresh enabled, ?_⟩
  cases stepped with
  | accept addr eventType free => exact fun item member => (safe item member).accept free
  | arrive addr bytes => exact fun item member => (safe item member).modify fun _ => rfl
  | reqCallback addr o lived =>
    have inv := projects.inv lived
    obtain ⟨own, self⟩ := reqCallback_own pb (push w.waiting.length) inv
    exact noDangling_callback safe (projects addr o lived).1
      (itemsAt_parsing projects lived (spares o lived)) own self (reqCallback_gone inv)
  | errCallback addr events o lived =>
    obtain ⟨gone, none⟩ := errCallback_none events
    refine noDangling_callback safe (projects addr o lived).1
      (itemsAt_parsing projects lived (spares o lived)) ?_ ?_ fun _ => none
    · simp [none]
    · simp [gone]
  | take worker event rest waiting idle =>
    exact (moves_take waiting idle).noDangling safe fun _ alive => alive
  | work worker rand garbage outcome event position busy =>
    exact (moves_work busy _ _ _).noDangling safe fun _ alive => alive.modify fun _ => rfl
  | finish worker event response busy =>
    exact (moves_finish busy _).noDangling safe fun _ alive => alive.modify fun _ => rfl
  | handleResults =>
    intro item member
    have old : item ∈ w.items := by
      rw [items, pool, List.map_nil, List.append_nil] at member
      exact List.mem_append_left _ member
    exact (safe item old).writeResults w.results

theorem safe_init (workers : Nat) (table : List Bytes) :
    Projects pb (init workers table) ∧ NoDangling (init workers table) := by
  refine ⟨projects_init workers table, ?_⟩
  intro item member
  simp [items, pool, init] at member

/-- In a run that deletes no session while its request is handled, every session of
every state is in a reachable state of one connection, and all pointers are live. -/
theorem safe_run {workers : Nat} {table : List Bytes} {actions : List Action}
    (spares : Along (step pb db) Spares (init workers table) actions) :
    Always (step pb db) (fun w => Projects pb w ∧ NoDangling w) (init workers table) actions :=
  always_of_along noDangling_step (safe_init workers table) spares

/-- A session deleted while its request is handled leaves a pointer behind. -/
theorem handling_dangles {addr : Nat} {o : Object} {callback : NetGate.Callback}
    (projects : Projects pb w) (lived : w.heap addr = some o)
    (handling : o.session.stat = .handling) (deleted : callback.object = none) :
    ¬ NoDangling (w.callback addr callback) := by
  intro safe
  have inv := projects.inv lived
  generalize same : w.itemsAt addr = items at inv
  cases inv with
  | idle _ parsing => exact parsing handling
  | @busy _ item =>
    obtain ⟨inPool, here⟩ := mem_itemsAt.mp (same ▸ List.mem_singleton_self item)
    obtain ⟨p, lives, _⟩ := safe item (items_callback.mem_iff.mpr (List.mem_append_left _ inPool))
    rw [here, callback_same, deleted] at lives
    contradiction

theorem spares_of_noDangling (w : World) (a : Action) (v : World)
    (before : Projects pb w ∧ NoDangling w) (enabled : step pb db w a = some v)
    (safe : NoDangling v) : Spares w a := by
  cases stepped_of_step enabled with
  | reqCallback addr p found =>
    intro o lived handling
    obtain rfl := Option.some.inj (lived.symm.trans found)
    rw [NetGate.reqCallback_handling handling] at safe
    exact handling_dangles before.1 lived handling rfl safe
  | errCallback addr events =>
    intro o lived handling
    exact handling_dangles before.1 lived handling (errCallback_none events).1 safe
  | _ => trivial

/-- Live pointers in the pool make every access one to a live session. -/
theorem accesses_of_noDangling {a : Action} (safe : NoDangling w) : Accesses w a := by
  intro p member
  cases a with
  | work worker rand garbage outcome =>
    obtain ⟨task, busy, rfl⟩ := Option.map_eq_some_iff.mp (Option.mem_toList.mp member)
    have held := Slots.held_get (Option.join_eq_some_iff.mp busy)
    apply safe (.running task.event task.position)
    exact (pool_task held).mem_iff.mpr List.mem_cons_self
  | handleResults =>
    obtain ⟨event, result, rfl⟩ := List.mem_map.mp member
    exact safe (.done event) (List.mem_append_right _ (List.mem_map_of_mem result))
  | _ => contradiction

end Steps

/-- No event in the pool ever points to a deleted session, and no access goes
through such a pointer, exactly in the runs that delete no session while its
request is handled. -/
theorem noDangling_iff_spares (pb : Protobuf) (db : Database) (workers : Nat) (table : List Bytes)
    (actions : List Action) (w : World)
    (ran : run (step pb db) (init workers table) actions = some w) :
    (Always (step pb db) NoDangling (init workers table) actions ∧
        Along (step pb db) Accesses (init workers table) actions) ↔
      Along (step pb db) Spares (init workers table) actions := by
  have exact : Always (step pb db) NoDangling (init workers table) actions ↔
      Along (step pb db) Spares (init workers table) actions :=
    always_iff_along noDangling_step (fun _ both => both.2) spares_of_noDangling
      (safe_init workers table) ran
  constructor
  · rintro ⟨always, _⟩
    exact exact.mp always
  · intro spares
    have always := exact.mpr spares
    refine ⟨always, fun before a v part reached => ?_⟩
    have inner : before <+: actions := (List.prefix_append before [a]).trans part
    exact accesses_of_noDangling (always before v inner reached)

/-- A client asks for an identifier and disconnects while its request waits. -/
def disconnectRun : List Action :=
  [.accept 4096 .kUnknown, .arrive 4096 (ascii "SHBK" ++ [1, 0, 2, 0, 0, 0, 10, 0]),
    .reqCallback 4096, .errCallback 4096 0x11]

theorem noDangling_iff_spares_disconnect :
    ∃ w, run (step WireFormat.protobuf ⟨fun _ _ => none⟩) (init 1 []) disconnectRun = some w ∧
      ((Always (step WireFormat.protobuf ⟨fun _ _ => none⟩) NoDangling (init 1 []) disconnectRun ∧
          Along (step WireFormat.protobuf ⟨fun _ _ => none⟩) Accesses (init 1 []) disconnectRun) ↔
        Along (step WireFormat.protobuf ⟨fun _ _ => none⟩) Spares (init 1 []) disconnectRun) :=
  ⟨_, rfl, noDangling_iff_spares WireFormat.protobuf ⟨fun _ _ => none⟩ 1 [] disconnectRun _ rfl⟩

theorem disconnect_dangles :
    ∃ w, run (step WireFormat.protobuf ⟨fun _ _ => none⟩) (init 1 []) disconnectRun = some w ∧
      w.heap 4096 = none ∧ w.waiting = [⟨⟨4096, 0⟩, .phoneReq ⟨[]⟩⟩] ∧ ¬ NoDangling w := by
  obtain ⟨w, ran, gone, waiting⟩ : ∃ w,
      run (step WireFormat.protobuf ⟨fun _ _ => none⟩) (init 1 []) disconnectRun = some w ∧
        w.heap 4096 = none ∧ w.waiting = [⟨⟨4096, 0⟩, .phoneReq ⟨[]⟩⟩] := ⟨_, rfl, rfl, rfl⟩
  refine ⟨w, ran, gone, waiting, fun safe => ?_⟩
  have inPool : .waiting ⟨⟨4096, 0⟩, .phoneReq ⟨[]⟩⟩ ∈ w.items := by
    rw [items, waiting]
    exact List.mem_cons_self
  obtain ⟨o, lives, _⟩ := safe _ inPool
  exact Option.some_ne_none o (lives.symm.trans gone)

/-- A client asks for an identifier for "1" and is sent it. -/
def answeredRun : List Action :=
  [.accept 4096 .kUnknown, .arrive 4096 (ascii "SHBK" ++ [1, 0, 3, 0, 0, 0, 10, 1, 49]),
    .reqCallback 4096, .take 0, .work 0 0 ⟨[], 0⟩ .executed, .work 0 0 ⟨[], 0⟩ .executed,
    .work 0 0 ⟨[], 0⟩ .executed, .finish 0, .handleResults]

theorem answeredRun_spares :
    Along (step WireFormat.protobuf ⟨fun _ _ => none⟩) Spares (init 1 []) answeredRun :=
  along_of_decide (by decide +kernel)

end Shbk2.World
