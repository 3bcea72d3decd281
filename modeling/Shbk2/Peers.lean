import Shbk2.Dangling
import Shbk2.Dialogue

/-! What the steps of the server look like from one session. A pointer stands for the
session it was made for, not for another one that lives at its address later. -/
namespace Shbk2
open Transition

namespace World
variable {pb : Protobuf} {db : Database} {w v : World} {p : SessionPtr}

/-- The session of a pointer, with what it has in the pool. -/
def conn (w : World) (p : SessionPtr) : Conn :=
  match w.heap p.addr with
  | some o => if o.self = p then .live o (w.itemsAt p.addr) else .closed
  | none => .closed

theorem conn_live {o : Object} (lives : w.heap p.addr = some o) (self : o.self = p) :
    w.conn p = .live o (w.itemsAt p.addr) := by
  simp only [conn, lives, if_pos self]

theorem conn_other {o : Object} (lives : w.heap p.addr = some o) (other : o.self ≠ p) :
    w.conn p = .closed := by
  simp only [conn, lives, if_neg other]

theorem conn_none (free : w.heap p.addr = none) : w.conn p = .closed := by
  simp only [conn, free]

theorem live_of_conn {o : Object} {items : List Item} (live : w.conn p = .live o items) :
    w.heap p.addr = some o ∧ o.self = p ∧ w.itemsAt p.addr = items := by
  unfold conn at live
  split at live
  · split at live
    · obtain ⟨rfl, rfl⟩ := Conn.live.inj live
      exact ⟨‹_›, ‹_›, rfl⟩
    · contradiction
  · contradiction

/-- A step that changes neither the object at the address nor its items. -/
theorem conn_same (heap : v.heap p.addr = w.heap p.addr)
    (items : ∀ o, w.heap p.addr = some o → v.itemsAt p.addr = w.itemsAt p.addr) :
    v.conn p = w.conn p := by
  unfold conn
  rw [heap]
  split
  · rw [items _ ‹_›]
  · rfl

/-- An object changes and so do its items: what its own pointer sees, and any other. -/
theorem conn_changed {addr : Nat} {o q : Object} (lived : w.heap addr = some o)
    (lives : v.heap addr = some q) (self : q.self = o.self) (here : p.addr = addr) :
    o.self = p ∧ w.conn p = .live o (w.itemsAt addr) ∧ v.conn p = .live q (v.itemsAt addr) ∨
      w.conn p = .closed ∧ v.conn p = .closed := by
  subst here
  by_cases mine : o.self = p
  · exact .inl ⟨mine, conn_live lived mine, conn_live lives (self.trans mine)⟩
  · exact .inr ⟨conn_other lived mine, conn_other lives (self ▸ mine)⟩

/-! One case for each kind of step. -/

theorem conn_accept {addr : Nat} (eventType : EventType) (free : w.heap addr = none)
    (old : p.alloc ≠ w.allocations) :
    conn { w with
        heap := Function.update w.heap addr
          (some (NetGate.listenerCallback ⟨addr, w.allocations⟩ eventType))
        allocations := w.allocations + 1 } p = w.conn p := by
  by_cases here : p.addr = addr
  · subst here
    rw [conn_none free]
    exact conn_other update_same fun same => old (same ▸ rfl)
  · exact conn_same (update_other here) fun _ _ => rfl

/-- A new session at an address that nothing in the pool points to. -/
theorem conn_accepted {addr : Nat} (eventType : EventType) (fresh : w.itemsAt addr = []) :
    conn { w with
        heap := Function.update w.heap addr
          (some (NetGate.listenerCallback ⟨addr, w.allocations⟩ eventType))
        allocations := w.allocations + 1 } ⟨addr, w.allocations⟩ =
      .init ⟨addr, w.allocations⟩ eventType := by
  rw [Conn.init, ← fresh]
  exact conn_live (o := NetGate.listenerCallback ⟨addr, w.allocations⟩ eventType) update_same rfl

theorem conn_arrive {addr : Nat} {bytes : Bytes} {o : Object} (lived : w.heap addr = some o) :
    conn { w with heap := modify w.heap addr fun o => { o with session := o.session.arrive bytes } } p =
      if o.self = p ∧ p.addr = addr then
        .live { o with session := o.session.arrive bytes } (w.itemsAt addr)
      else w.conn p := by
  have lives : modify w.heap addr (fun o => { o with session := o.session.arrive bytes }) addr =
      some { o with session := o.session.arrive bytes } := by
    rw [modify_same, lived, Option.map_some]
  split
  · rename_i mine
    obtain ⟨self, rfl⟩ := mine
    exact conn_live lives self
  · rename_i other
    by_cases here : p.addr = addr
    · rcases conn_changed (v := { w with heap := modify w.heap addr fun o => { o with
          session := o.session.arrive bytes } }) lived lives rfl here with ⟨self, _⟩ | ⟨before, after⟩
      · exact absurd ⟨self, here⟩ other
      · exact after.trans before.symm
    · exact conn_same (modify_other here) fun _ _ => rfl

/-- An item of the pool that moves on is seen by its own session only, if that is there. -/
theorem Moves.seen {x y : Item} {f : Object → Object} {a : Conn.Action} (moves : Moves w v x y)
    (heap : v.heap = modify w.heap x.session.addr f) (self : ∀ o, (f o).self = o.self)
    (projects : Projects pb w)
    (steps : ∀ o, w.heap x.session.addr = some o →
      Conn.step pb (.live o [x]) a = some (.live (f o) [y])) (p : SessionPtr) :
    v.conn p = w.conn p ∨
      ∃ o, w.conn p = .live o [x] ∧ Conn.step pb (w.conn p) a = some (v.conn p) := by
  by_cases here : p.addr = x.session.addr
  · cases lived : w.heap x.session.addr with
    | none =>
      have free : v.heap p.addr = none := by
        rw [heap, here, modify_same, lived, Option.map_none]
      exact .inl ((conn_none free).trans (conn_none (here ▸ lived)).symm)
    | some o =>
      have lives : v.heap x.session.addr = some (f o) := by
        rw [heap, modify_same, lived, Option.map_some]
      rcases conn_changed lived lives (self o) here with ⟨_, before, after⟩ | ⟨before, after⟩
      · obtain ⟨old, new⟩ := moves.here (projects.inv lived)
        rw [before, after, old, new]
        exact .inr ⟨o, rfl, steps o lived⟩
      · exact .inl (after.trans before.symm)
  · refine .inl (conn_same ?_ fun q lives => ?_)
    · rw [heap, modify_other here]
    · exact moves.elsewhere (Ne.symm here) (projects.inv lives)

theorem conn_callback {addr : Nat} {o : Object} {callback : NetGate.Callback}
    (lived : w.heap addr = some o) (owner : o.self.addr = addr) (projects : Projects pb w)
    (after : Projects pb (w.callback addr callback))
    (own : ∀ event, callback.pushed = some event → event.session = o.self)
    (self : ∀ q, callback.object = some q → q.self = o.self) :
    (w.callback addr callback).conn p =
      if o.self = p then Conn.afterCallback callback (w.itemsAt addr) else w.conn p := by
  have items := itemsAt_callback (w := w) fun event pushed =>
    (congrArg SessionPtr.addr (own event pushed)).trans owner
  by_cases here : p.addr = addr
  · subst here
    cases left : callback.object with
    | none =>
      rw [conn_none (callback_same.trans left)]
      split
      · simp only [Conn.afterCallback, left]
      · rename_i other
        exact (conn_other lived other).symm
    | some q =>
      have lives : (w.callback p.addr callback).heap p.addr = some q := callback_same.trans left
      rcases conn_changed lived lives (self q left) rfl with ⟨mine, _, changed⟩ | ⟨before, changed⟩
      · have same := (after.inv lives).perm (items p.addr).symm
        rw [if_pos rfl] at same
        rw [if_pos mine, changed, ← same]
        simp only [Conn.afterCallback, left]
      · rw [changed, before, if_neg]
        intro mine
        rw [conn_live lived mine] at before
        contradiction
  · have other : o.self ≠ p := fun same => here (same ▸ owner)
    rw [if_neg other]
    refine conn_same (callback_other here) fun q lives => ?_
    have same := items p.addr
    rw [if_neg here, List.append_nil] at same
    exact (projects.inv lives).perm same

/-- The read callback of a session is a step of its connection. -/
theorem conn_reqCallback {addr : Nat} {o : Object} (lived : w.heap addr = some o)
    (projects : Projects pb w)
    (after : Projects pb (w.callback addr (NetGate.reqCallback pb (push w.waiting.length) o))) :
    (w.callback addr (NetGate.reqCallback pb (push w.waiting.length) o)).conn p =
      if o.self = p then
        Conn.afterCallback (NetGate.reqCallback pb (push w.waiting.length) o) (w.itemsAt addr)
      else w.conn p := by
  obtain ⟨own, self⟩ := reqCallback_own pb (push w.waiting.length) (projects.inv lived)
  exact conn_callback lived (projects addr o lived).1 projects after own self

theorem conn_errCallback {addr : Nat} {events : UInt16} {o : Object} (lived : w.heap addr = some o)
    (projects : Projects pb w)
    (after : Projects pb (w.callback addr (NetGate.errCallback events))) :
    (w.callback addr (NetGate.errCallback events)).conn p =
      if o.self = p then .closed else w.conn p := by
  obtain ⟨gone, none⟩ := errCallback_none events
  rw [conn_callback lived (projects addr o lived).1 projects after (by simp [none]) (by simp [gone]),
    Conn.afterCallback_errCallback]

section Seen
variable [Proto.Runtime]

/-- The bytes that `handle_results` writes to a session. -/
def writes (w : World) (p : SessionPtr) : Bytes :=
  match w.conn p with
  | .live _ _ => (w.results.filter fun event => event.session.addr = p.addr).flatMap
      fun event => Proto.package (Proto.serializable event.message)
  | .closed => []

/-- `handle_results` has one result or none for a session. -/
theorem conn_handleResults (projects : Projects pb w) (p : SessionPtr) :
    conn { w with heap := w.results.foldl writeResult w.heap, results := [] } p = w.conn p ∧
        w.writes p = [] ∨
      ∃ o event, w.conn p = .live o [.done event] ∧
        conn { w with heap := w.results.foldl writeResult w.heap, results := [] } p =
          .live (NetGate.handleResult event o) [] ∧
        w.writes p = Proto.package (Proto.serializable event.message) := by
  have written := foldl_writeResult w.results w.heap p.addr
  cases found : w.heap p.addr with
  | none =>
    rw [found, Option.map_none] at written
    refine .inl ⟨(conn_none written).trans (conn_none found).symm, ?_⟩
    rw [writes, conn_none found]
  | some o =>
    rw [found, Option.map_some] at written
    have split : w.itemsAt p.addr = itemsAt { w with
        heap := w.results.foldl writeResult w.heap, results := [] } p.addr ++
          (w.results.filter fun event => event.session.addr = p.addr).map .done := by
      simp only [itemsAt, items, pool, List.filter_append, List.map_nil, List.append_nil,
        List.filter_map]
      rfl
    -- The results of an address are none, or the only item of its session.
    have quiet (none : (w.results.filter fun event => event.session.addr = p.addr) = []) :
        conn { w with heap := w.results.foldl writeResult w.heap, results := [] } p = w.conn p ∧
          w.writes p = [] := by
      rw [none] at written split
      refine ⟨conn_same (written.trans found.symm) fun _ _ => ?_, ?_⟩
      · rw [split, List.map_nil, List.append_nil]
      · rw [writes, none]
        split <;> rfl
    rcases (projects.inv found).items with none | ⟨item, one⟩
    · rw [none] at split
      exact .inl (quiet (List.map_eq_nil_iff.mp (List.append_eq_nil_iff.mp split.symm).2))
    · rw [one] at split
      rcases List.append_eq_singleton_iff.mp split.symm with ⟨rest, single⟩ | ⟨_, nothing⟩
      · obtain ⟨event, only, rfl⟩ := List.map_eq_singleton_iff.mp single
        rw [only] at written
        have lives : heap { w with heap := w.results.foldl writeResult w.heap, results := [] }
            p.addr = some (NetGate.handleResult event o) := written
        rcases conn_changed found lives rfl rfl with ⟨_, before, after⟩ | ⟨before, after⟩
        · refine .inr ⟨o, event, before.trans (by rw [one]), after.trans (by rw [rest]), ?_⟩
          rw [writes, before, only]
          exact List.append_nil _
        · refine .inl ⟨after.trans before.symm, ?_⟩
          rw [writes, before]
      · exact .inl (quiet (List.map_eq_nil_iff.mp nothing))

/-! All steps together. -/

/-- The steps of the server by itself. -/
def Action.Inner : Action → Prop
  | .accept _ _ | .arrive _ _ => False
  | .reqCallback _ | .errCallback _ _ | .take _ | .work _ _ _ _ | .finish _ | .handleResults => True

/-- A handler that has returned is about to make a further access. -/
def Returned (w : World) : Action → Prop
  | .work worker _ _ _ => ∃ event response, w.workers[worker]? = some (some ⟨event, .returned response⟩)
  | _ => False

def written (w : World) (p : SessionPtr) : Action → Bytes
  | .handleResults => w.writes p
  | _ => []

/-- Which steps of a connection a step of the server can be. -/
def Stands (w : World) (p : SessionPtr) (b : Action) : Conn.Action → Prop
  | .arrive _ => False
  | .reqCallback waitingQueueSize => b = .reqCallback p.addr ∧ waitingQueueSize = w.waiting.length
  | .errCallback events => b = .errCallback p.addr events
  | .take _ | .work _ _ _ | .finish _ | .handleResult _ => True

/-- The callbacks of a session. -/
def Calls (w : World) (p : SessionPtr) : Action → Prop
  | .reqCallback addr | .errCallback addr _ => ∃ o, w.heap addr = some o ∧ o.self = p
  | _ => False

inductive Seen (pb : Protobuf) (w v : World) (b : Action) (p : SessionPtr) : Prop where
  | unchanged : ¬ Calls w p b → v.conn p = w.conn p → w.written p b = [] → Seen pb w v b p
  | stepped (a : Conn.Action) : Stands w p b a → ¬ Dialogue.returned (w.conn p) a →
      Conn.step pb (w.conn p) a = some (v.conn p) →
      Dialogue.writes (w.conn p) a = w.written p b → Seen pb w v b p

theorem seen_step {b : Action} (projects : Projects pb w) (inner : b.Inner)
    (continues : ¬ Returned w b) (enabled : step pb db w b = some v) (p : SessionPtr) :
    Seen pb w v b p := by
  have after : Projects pb v := by
    refine projects_step w b v projects ?_ enabled
    cases b with
    | accept => exact inner.elim
    | _ => trivial
  cases stepped_of_step enabled with
  | accept | arrive => exact inner.elim
  | reqCallback addr o lived unread =>
    have changed := conn_reqCallback (p := p) lived projects after
    by_cases mine : o.self = p
    · obtain rfl : p.addr = addr := mine ▸ (projects addr o lived).1
      have before := conn_live lived mine
      rw [if_pos mine] at changed
      refine .stepped (.reqCallback w.waiting.length) ⟨rfl, rfl⟩ ?_ ?_ ?_
      · rw [before]
        exact Bool.false_ne_true
      · rw [before, changed]
        exact if_pos unread
      · rw [before]
        rfl
    · refine .unchanged ?_ (changed.trans (if_neg mine)) rfl
      rintro ⟨q, found, self⟩
      exact mine (Option.some.inj (lived.symm.trans found) ▸ self)
  | errCallback addr events o lived =>
    have changed := conn_errCallback (p := p) lived projects after
    by_cases mine : o.self = p
    · obtain rfl : p.addr = addr := mine ▸ (projects addr o lived).1
      have before := conn_live lived mine
      rw [if_pos mine] at changed
      refine .stepped (.errCallback events) rfl ?_ ?_ ?_
      · rw [before]
        exact Bool.false_ne_true
      · rw [before, changed, Conn.step, Conn.afterCallback_errCallback]
      · rw [before]
        rfl
    · refine .unchanged ?_ (changed.trans (if_neg mine)) rfl
      rintro ⟨q, found, self⟩
      exact mine (Option.some.inj (lived.symm.trans found) ▸ self)
  | take worker event rest waiting idle =>
    have moves := moves_take waiting idle
    rcases moves.seen (f := id) (a := .take 0) modify_id.symm (fun _ => rfl) projects
        (fun _ _ => rfl) p with same | ⟨o, before, stepped⟩
    · exact .unchanged id same rfl
    · exact .stepped (.take 0) trivial (by rw [before]; exact Bool.false_ne_true) stepped (by rw [before]; rfl)
  | work worker rand garbage outcome event position busy =>
    have moves := moves_work busy (modify w.heap event.session.addr
        (Object.work rand (db.call w.table position.statement outcome).2 position))
      (db.call w.table position.statement outcome).1 (position.step
        (((w.heap event.session.addr).map (·.session.stored)).getD garbage) rand
        (db.call w.table position.statement outcome).2).2
    have steps (o : Object) (lived : w.heap event.session.addr = some o) :
        Conn.step pb (.live o [.running event position])
            (.work 0 rand (db.call w.table position.statement outcome).2) =
          some (.live (o.work rand (db.call w.table position.statement outcome).2 position)
            [.running event (position.step
              (((w.heap event.session.addr).map (·.session.stored)).getD garbage) rand
              (db.call w.table position.statement outcome).2).2]) := by
      rw [lived]
      rfl
    rcases moves.seen rfl (fun _ => rfl) projects steps p
      with same | ⟨o, before, stepped⟩
    · exact .unchanged id same rfl
    · refine .stepped (.work 0 rand (db.call w.table position.statement outcome).2) trivial ?_ stepped ?_
      · rw [before]
        intro returned
        cases position with
        | returned response => exact continues ⟨event, response, busy⟩
        | _ => contradiction
      · rw [before]
        rfl
  | finish worker event response busy =>
    have moves := moves_finish busy
      (modify w.heap event.session.addr (Object.finish event.message response))
    rcases moves.seen (a := .finish 0) rfl (fun _ => rfl) projects (fun _ _ => rfl) p
      with same | ⟨o, before, stepped⟩
    · exact .unchanged id same rfl
    · exact .stepped (.finish 0) trivial (by rw [before]; exact Bool.false_ne_true) stepped (by rw [before]; rfl)
  | handleResults =>
    rcases conn_handleResults projects p with ⟨same, quiet⟩ | ⟨o, event, before, later, wrote⟩
    · exact .unchanged id same quiet
    · refine .stepped (.handleResult 0) trivial ?_ ?_ ?_
      · rw [before]
        exact Bool.false_ne_true
      · rw [before, later]
        rfl
      · rw [before]
        exact wrote.symm

end Seen

/-- The steps of other sessions. -/
def Foreign (w : World) (p : SessionPtr) : Action → Prop
  | .accept _ _ => p.alloc < w.allocations
  | .arrive addr _ | .reqCallback addr | .errCallback addr _ => ∀ o, w.heap addr = some o → o.self ≠ p
  | _ => False

/-- What a session sees of the others' connections: nothing. -/
theorem conn_foreign {b : Action} (projects : Projects pb w) (after : Projects pb v)
    (foreign : Foreign w p b) (enabled : step pb db w b = some v) : v.conn p = w.conn p := by
  cases stepped_of_step enabled with
  | accept addr eventType free => exact conn_accept eventType free (Nat.ne_of_lt foreign)
  | arrive addr bytes o lived =>
    exact (conn_arrive lived).trans (if_neg fun mine => foreign o lived mine.1)
  | reqCallback addr o lived =>
    exact (conn_reqCallback lived projects after).trans (if_neg (foreign o lived))
  | errCallback addr events o lived =>
    exact (conn_errCallback lived projects after).trans (if_neg (foreign o lived))
  | take | work | finish | handleResults => exact foreign.elim

end World
end Shbk2
