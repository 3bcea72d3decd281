import Shbk2.Reassembly

/-! Requests that wait behind others. A read callback takes at most one frame and
nothing calls the parser again before new bytes arrive, so a complete frame is
left behind exactly by a callback that finds two of them, or one whose body is
empty and followed by nothing. -/
namespace Shbk2
namespace MsgProxy

def BeginsFrame (bytes : Bytes) : Prop :=
  ∃ (type : EventType) (size : UInt32) (body rest : Bytes), type.IsRequest ∧
    body.length = size.toNat ∧ bytes = header type size ++ (body ++ rest)

/-- A complete frame directly followed by another one. -/
def Sticky (bytes : Bytes) : Prop :=
  ∃ (type : EventType) (size : UInt32) (body rest : Bytes), type.IsRequest ∧
    body.length = size.toNat ∧ bytes = header type size ++ (body ++ rest) ∧ BeginsFrame rest

/-- What a read callback does not take up from the bytes it finds. -/
def Withholds (waitingQueueSize : Nat) (bytes : Bytes) : Prop :=
  (BeginsFrame bytes ∧ bytes.length = 10) ∨ (waitingQueueSize < kDefaultMaxQueueSize ∧ Sticky bytes)

section Frame
variable {bytes body rest : Bytes} {type : EventType} {size : UInt32}

theorem oneShot_complete (request : type.IsRequest) (length : body.length = size.toNat) :
    oneShot (header type size ++ (body ++ rest)) = .frame type body rest := by
  have enough : ¬ (body ++ rest).length < size.toNat := by
    rw [List.length_append]
    omega
  rw [oneShot_header, if_neg enough, if_neg (not_not.mpr request), ← length, List.take_left,
    List.drop_left]

theorem oneShot_of_packed (parsed : packed bytes = .frame type body rest) :
    oneShot bytes = .frame type body rest := by
  unfold packed at parsed
  split at parsed
  · contradiction
  · exact parsed

/-- A frame that the parser does not take is a bare header. -/
theorem packed_incomplete_frame (waits : packed bytes = .incomplete) (frame : BeginsFrame bytes) :
    bytes.length = 10 := by
  obtain ⟨type, size, body, rest, request, length, rfl⟩ := frame
  unfold packed at waits
  split at waits
  · rename_i only
    exact only.1
  · rw [oneShot_complete request length] at waits
    contradiction

theorem BeginsFrame.length (frame : BeginsFrame bytes) : 10 ≤ bytes.length := by
  obtain ⟨type, size, body, rest, _, _, rfl⟩ := frame
  rw [List.length_append, header_length]
  omega

theorem not_beginsFrame_nil : ¬ BeginsFrame [] := fun frame => absurd frame.length (by decide)

theorem BeginsFrame.identified (frame : BeginsFrame bytes) : bytes.take 4 = headerCont := by
  obtain ⟨type, size, body, rest, _, _, rfl⟩ := frame
  exact header_take type size (body ++ rest)

theorem BeginsFrame.packed_header_only (frame : BeginsFrame bytes) (ten : bytes.length = 10) :
    packed bytes = .incomplete := if_pos ⟨ten, frame.identified⟩

theorem BeginsFrame.packed (frame : BeginsFrame bytes) (more : bytes.length ≠ 10) :
    ∃ type body rest, packed bytes = .frame type body rest := by
  obtain ⟨type, size, body, rest, request, length, rfl⟩ := frame
  exact ⟨type, body, rest, (if_neg fun only => more only.1).trans (oneShot_complete request length)⟩

theorem Sticky.beginsFrame (sticky : Sticky bytes) : BeginsFrame bytes := by
  obtain ⟨type, size, body, rest, request, length, split, _⟩ := sticky
  exact ⟨type, size, body, rest, request, length, split⟩

theorem Withholds.beginsFrame {waitingQueueSize : Nat} (withholds : Withholds waitingQueueSize bytes) :
    BeginsFrame bytes := by
  rcases withholds with ⟨frame, _⟩ | ⟨_, sticky⟩
  · exact frame
  · exact sticky.beginsFrame

theorem BeginsFrame.packed_cases (frame : BeginsFrame bytes) : MsgProxy.packed bytes = .incomplete ∨
    ∃ type body rest, MsgProxy.packed bytes = .frame type body rest := by
  by_cases ten : bytes.length = 10
  · exact .inl (frame.packed_header_only ten)
  · exact .inr (frame.packed ten)

/-- A frame of a request is not refused. -/
theorem BeginsFrame.not_rejected (frame : BeginsFrame bytes) :
    ¬ (MsgProxy.packed bytes = .unknownIdentifier ∨ MsgProxy.packed bytes = .unknownType) := by
  rcases frame.packed_cases with waits | ⟨_, _, _, takes⟩
  · simp [waits]
  · simp [takes]

/-- The frame taken is the one that the held bytes begin with. -/
theorem sticky_iff (parsed : packed bytes = .frame type body rest) :
    Sticky bytes ↔ BeginsFrame rest := by
  have whole := oneShot_of_packed parsed
  constructor
  · rintro ⟨other, size, first, second, request, length, rfl, frame⟩
    rw [oneShot_complete request length] at whole
    obtain ⟨_, _, rfl⟩ := Parsed.frame.inj whole
    exact frame
  · intro frame
    obtain ⟨_, _, _, request, length, split⟩ := oneShot_frame whole
    exact ⟨type, declaredSize bytes, body, rest, request, length, split, frame⟩

end Frame
end MsgProxy

open MsgProxy

theorem request_handled (request : Request) : request.type ∈ handlerMap := by
  cases request with
  | phoneReq message => exact List.mem_cons_self
  | loginReq message => exact List.mem_cons_of_mem _ List.mem_cons_self

/-- Every event that `pack` makes has a handler: only a full queue refuses it. -/
theorem push_iff {waitingQueueSize : Nat} {event : ReqEvent} :
    push waitingQueueSize event = true ↔ waitingQueueSize < kDefaultMaxQueueSize := by
  simp [push, request_handled]

namespace Conn
variable {pb : Protobuf}

/-- Steps of the server that carry a request on, without a callback of the connection. -/
def Action.Internal : Action → Prop
  | .take _ | .work _ _ _ | .finish _ | .handleResult _ => True
  | .arrive _ | .reqCallback _ | .errCallback _ => False

/-- An internal step leaves the bytes of the session and its pushed events alone. -/
structure Carries (o p : Object) : Prop where
  self : p.self = o.self
  held : held p.session = held o.session
  unread : p.session.bufev.unread = o.session.bufev.unread
  pushed : p.history.pushed = o.history.pushed

theorem Carries.trans {o p q : Object} (first : Carries o p) (second : Carries p q) :
    Carries o q :=
  ⟨second.self.trans first.self, second.held.trans first.held, second.unread.trans first.unread,
    second.pushed.trans first.pushed⟩

theorem step_internal {o : Object} {items : List Item} {a : Action} {d : Conn}
    (inv : Inv (.live o items)) (internal : a.Internal) (enabled : step pb (.live o items) a = some d) :
    ∃ p rest, d = .live p rest ∧ Carries o p := by
  cases stepped_of_step enabled with
  | arrive | reqCallback | errCallback => exact internal.elim
  | take | work | finish => exact ⟨_, _, rfl, rfl, rfl, rfl, rfl⟩
  | handleResult i event get =>
    refine ⟨_, _, rfl, rfl, ?_, rfl, rfl⟩
    -- Both states have consumed nothing: the next request starts with the input.
    cases inv with
    | idle => simp at get
    | busy _ stat => exact (held_idle (.inl rfl)).trans (held_idle (.inr stat)).symm

/-- The accesses left before a handler returns, at most. -/
def remaining : Position → Nat
  | .phoneReq _ => 3
  | .identifierSet _ _ => 2
  | .phoneNumberSet _ => 1
  | .loginReq _ => 4
  | .phoneNumberMatched _ => 3
  | .matched _ => 2
  | .absent _ => 1
  | .returned _ => 0

theorem remaining_step (position : Position) (stored : Stored) (rand : Nat)
    (execution : UserDAO.Execution) :
    remaining (position.step stored rand execution).2 ≤ remaining position - 1 := by
  cases position with
  | phoneReq | identifierSet | phoneNumberSet | absent | returned => exact Nat.le_refl _
  | loginReq | phoneNumberMatched | matched =>
    simp only [Position.step]
    split <;> simp [remaining]

theorem returned_of_remaining {position : Position} (none : remaining position = 0) :
    ∃ response, position = .returned response := by
  cases position with
  | returned response => exact ⟨response, rfl⟩
  | _ => contradiction

/-- A run of internal steps that ends with nothing in flight. -/
def Drains (pb : Protobuf) (c : Conn) (o : Object) : Prop :=
  ∃ actions, (∀ a ∈ actions, a.Internal) ∧ Transition.run (step pb) c actions = some (.live o [])

theorem Drains.next {c d : Conn} {o : Object} {a : Action} (stepped : step pb c a = some d)
    (internal : a.Internal) (drains : Drains pb d o) : Drains pb c o := by
  obtain ⟨actions, all, ran⟩ := drains
  refine ⟨a :: actions, ?_, ?_⟩
  · exact List.forall_mem_cons.mpr ⟨internal, all⟩
  · rw [Transition.run_cons, stepped]
    exact ran

theorem drains_done (pb : Protobuf) (o : Object) (event : ResEvent) : ∃ p, Drains pb (.live o [.done event]) p :=
  ⟨_, [.handleResult 0], by simp [Action.Internal], rfl⟩

theorem drains_running (pb : Protobuf) (o : Object) (event : ReqEvent) (position : Position) :
    ∃ p, Drains pb (.live o [.running event position]) p := by
  generalize bound : remaining position = n
  induction n using Nat.strongRecOn generalizing o position with
  | ind n ih =>
    by_cases none : remaining position = 0
    · obtain ⟨response, rfl⟩ := returned_of_remaining none
      obtain ⟨p, drains⟩ := drains_done pb (o.finish event.message response)
        ⟨event.session, response⟩
      exact ⟨p, drains.next (a := .finish 0) rfl trivial⟩
    · have fewer := remaining_step position o.session.stored 0 .noHandler
      obtain ⟨p, drains⟩ := ih _ (by omega) (o.work 0 .noHandler position)
        (position.step o.session.stored 0 .noHandler).2 rfl
      exact ⟨p, drains.next (a := .work 0 0 .noHandler) rfl trivial⟩

/-- The requests in flight can always be carried to their end. -/
theorem drains (pb : Protobuf) {o : Object} {items : List Item} (inv : Inv (.live o items)) :
    ∃ p, Drains pb (.live o items) p := by
  cases inv with
  | idle => exact ⟨o, [], by simp, rfl⟩
  | @busy _ item =>
    cases item with
    | waiting event =>
      obtain ⟨p, drains⟩ := drains_running pb o event (.start event.message)
      exact ⟨p, drains.next (a := .take 0) rfl trivial⟩
    | running event position => exact drains_running pb o event position
    | done event => exact drains_done pb o event

theorem run_internal {o : Object} {items : List Item} {actions : List Action} {d : Conn}
    (inv : Inv (.live o items)) (internal : ∀ a ∈ actions, a.Internal)
    (ran : Transition.run (step pb) (.live o items) actions = some d) :
    ∃ p rest, d = .live p rest ∧ Carries o p := by
  induction actions generalizing o items with
  | nil => exact ⟨o, items, (Option.some.inj ran).symm, rfl, rfl, rfl, rfl⟩
  | cons a actions ih =>
    obtain ⟨first, later⟩ := List.forall_mem_cons.mp internal
    obtain ⟨middle, stepped, rest⟩ := Transition.run_cons_some ran
    have kept := inv_step _ _ _ inv stepped
    obtain ⟨p, more, rfl, carries⟩ := step_internal inv first stepped
    obtain ⟨q, last, same, further⟩ := ih kept later rest
    exact ⟨q, last, same, carries.trans further⟩

/-- A quiescent session that holds a complete frame. -/
def Withheld : Conn → Prop
  | .live o inFlight =>
    inFlight = [] ∧ o.session.bufev.unread = false ∧ BeginsFrame (held o.session)
  | .closed => False

/-- No frame is withheld now, or when the requests in flight come to their end. -/
def Serves (pb : Protobuf) (c : Conn) : Prop :=
  ∀ actions d, (∀ a ∈ actions, a.Internal) → Transition.run (step pb) c actions = some d →
    ¬ Withheld d

/-- A read callback that takes up everything it could find complete. -/
def Attends : Conn → Action → Prop
  | .live o _, .reqCallback waitingQueueSize =>
    o.session.stat ≠ .handling → ¬ Withholds waitingQueueSize (held o.session)
  | _, _ => True

/-- The invariant: what was left by the last callback does not begin with a frame. -/
def Clean : Conn → Prop
  | .live o _ => o.session.bufev.unread = false → ¬ BeginsFrame (held o.session)
  | .closed => True

theorem clean_carries {o p : Object} {items rest : List Item} (carries : Carries o p)
    (clean : Clean (.live o items)) : Clean (.live p rest) := by
  intro seen
  rw [carries.held]
  exact clean (carries.unread ▸ seen)

theorem clean_reqCallback {o : Object} {items : List Item} {waitingQueueSize : Nat}
    (inv : Inv (.live o items)) (attends : Attends (.live o items) (.reqCallback waitingQueueSize)) :
    Clean (afterCallback (NetGate.reqCallback pb (push waitingQueueSize) o) items) := by
  cases inv with
  | busy _ stat =>
    rw [NetGate.reqCallback_handling stat]
    trivial
  | idle rep stat =>
    have takes := attends stat
    have answered := NetGate.reqCallback_answered pb (push waitingQueueSize) rep stat
    generalize NetGate.reqCallback pb (push waitingQueueSize) o = callback at answered ⊢
    cases answered with
    | rejects | refuses => trivial
    | waits t waits rep kept parsing seen same =>
      intro _ frame
      have frame : BeginsFrame (held o.session) := kept ▸ frame
      exact takes (.inl ⟨frame, packed_incomplete_frame waits frame⟩)
    | accepts type body rest parse t parsed found accepted handling rep input seen same =>
      intro _ frame
      have left : held t = rest := (held_idle (.inr handling)).trans input
      have sticky : Sticky (held o.session) := (sticky_iff parsed).mpr (left ▸ frame)
      exact takes (.inr ⟨push_iff.mp accepted, sticky⟩)

theorem clean_step (c : Conn) (a : Action) (d : Conn) (before : Inv c ∧ Clean c)
    (attends : Attends c a) (enabled : step pb c a = some d) : Inv d ∧ Clean d := by
  obtain ⟨inv, clean⟩ := before
  refine ⟨inv_step c a d inv enabled, ?_⟩
  cases c with
  | closed => contradiction
  | live o items =>
    by_cases internal : a.Internal
    · obtain ⟨p, rest, rfl, carries⟩ := step_internal inv internal enabled
      exact clean_carries carries clean
    · cases stepped_of_step enabled with
      | arrive bytes => exact fun seen => Bool.noConfusion seen
      | reqCallback => exact clean_reqCallback inv attends
      | errCallback => trivial
      | take | work | finish | handleResult => exact absurd trivial internal

theorem serves_of_clean (c : Conn) (before : Inv c ∧ Clean c) : Serves pb c := by
  intro actions d internal ran withheld
  cases c with
  | closed =>
    cases actions with
    | nil =>
      obtain rfl := Option.some.inj ran
      exact withheld
    | cons a actions => contradiction
  | live o items =>
    obtain ⟨p, rest, rfl, carries⟩ := run_internal before.1 internal ran
    obtain ⟨_, seen, frame⟩ := withheld
    have clean : Clean (.live p rest) := clean_carries carries before.2
    exact clean seen frame

/-- A callback that leaves a frame behind leads to a quiescent session that holds it. -/
theorem attends_of_serves (c : Conn) (a : Action) (d : Conn) (before : Inv c ∧ Clean c)
    (enabled : step pb c a = some d) (serves : Serves pb d) : Attends c a := by
  cases c with
  | closed => trivial
  | live o items =>
    cases stepped_of_step enabled with
    | arrive | errCallback | take | work | finish | handleResult => trivial
    | reqCallback waitingQueueSize =>
      intro stat withholds
      have kept : Inv (afterCallback (NetGate.reqCallback pb (push waitingQueueSize) o) items) :=
        inv_reqCallback before.1
      cases before.1 with
      | busy _ handling => exact stat handling
      | idle rep =>
        have answered := NetGate.reqCallback_answered pb (push waitingQueueSize) rep stat
        generalize NetGate.reqCallback pb (push waitingQueueSize) o = callback
          at answered serves kept
        cases answered with
        | rejects parsed => exact withholds.beginsFrame.not_rejected parsed
        | refuses type body rest parse parsed found refused =>
          rcases withholds with ⟨frame, ten⟩ | ⟨room, _⟩
          · simp [frame.packed_header_only ten] at parsed
          · exact Bool.noConfusion (refused.symm.trans (push_iff.mpr room))
        | waits t waits rep held parsing seen same =>
          have frame : BeginsFrame (MsgProxy.held t) := held ▸ withholds.beginsFrame
          exact serves [] _ (by simp) rfl ⟨rfl, seen, frame⟩
        | accepts type body rest parse t parsed found accepted handling rep input seen same =>
          rcases withholds with ⟨frame, ten⟩ | ⟨_, sticky⟩
          · simp [frame.packed_header_only ten] at parsed
          · obtain ⟨p, actions, internal, ran⟩ := drains pb kept
            obtain ⟨q, last, same, carries⟩ := run_internal kept internal ran
            obtain ⟨rfl, rfl⟩ := Conn.live.inj same
            have left : MsgProxy.held t = rest := (held_idle (.inr handling)).trans input
            have frame : BeginsFrame (MsgProxy.held p.session) := by
              rw [carries.held]
              exact left ▸ (sticky_iff parsed).mp sticky
            exact serves actions _ internal ran ⟨rfl, carries.unread.trans seen, frame⟩

/-- No frame is withheld in a run, or when its requests in flight come to their
end, exactly when no read callback of it finds more than it takes. -/
theorem serves_iff_attends (pb : Protobuf) (self : SessionPtr) (eventType : EventType)
    (actions : List Action) (c : Conn)
    (ran : Transition.run (step pb) (init self eventType) actions = some c) :
    Transition.Always (step pb) (Serves pb) (init self eventType) actions ↔
      Transition.Along (step pb) Attends (init self eventType) actions := by
  have initial : Inv (init self eventType) ∧ Clean (init self eventType) := by
    exact ⟨inv_init self eventType, fun _ => not_beginsFrame_nil⟩
  exact Transition.always_iff_along clean_step serves_of_clean attends_of_serves initial ran

/-- Two requests in one chunk; the first is answered, then the server has nothing to do. -/
def stickyRun : List Action :=
  [.arrive (ascii "SHBK" ++ [1, 0, 2, 0, 0, 0, 10, 0] ++ ascii "SHBK" ++ [1, 0, 2, 0, 0, 0, 10, 0]),
    .reqCallback 0, .take 0, .work 0 0 .noHandler, .work 0 0 .noHandler, .work 0 0 .noHandler,
    .finish 0, .handleResult 0]

theorem serves_iff_attends_sticky :
    ∃ c, Transition.run (step WireFormat.protobuf) (init ⟨4096, 0⟩ .kUnknown) stickyRun = some c ∧
      (Transition.Always (step WireFormat.protobuf) (Serves WireFormat.protobuf)
          (init ⟨4096, 0⟩ .kUnknown) stickyRun ↔
        Transition.Along (step WireFormat.protobuf) Attends (init ⟨4096, 0⟩ .kUnknown) stickyRun) :=
  ⟨_, rfl, serves_iff_attends WireFormat.protobuf ⟨4096, 0⟩ .kUnknown stickyRun _ rfl⟩

theorem second_frame_withheld :
    ∃ c, Transition.Reachable (step WireFormat.protobuf) (init ⟨4096, 0⟩ .kUnknown) c ∧ Withheld c :=
  ⟨_, ⟨stickyRun, rfl⟩, rfl, rfl, .kPhoneReq, 2, [10, 0], [], .inl rfl, rfl, rfl⟩

end Conn
end Shbk2
