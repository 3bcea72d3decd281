import Shbk2.Withholding

/-! What becomes of a frame whose body does not decode. The verdict of
`ParseFromArray` is dropped, so the frame is dispatched like any other as soon as it
is read to its end: it is kept from the handlers only where the session is closed. -/
namespace Shbk2

def Response.code : Response → Int32
  | .phoneRes message => message.code
  | .loginRes message => message.code

namespace Conn
open MsgProxy Transition

/-- A session that made nothing of a frame it held: it is closed, or no event was pushed
since, its fields are as they were, and no success was the answer to such an event. -/
def Ignores (o : Object) : Conn → Prop
  | .closed => True
  | .live p _ => p.history.pushed = o.history.pushed ∧ p.session.stored = o.session.stored ∧
      ∀ response, p.written[o.history.pushed.length]? = some response →
        response.code ≠ ErrorCode.kSuccess.value

section Frame
variable {pb : Protobuf} {o : Object}

theorem closed_of_closed {c : Conn} (reached : Reachable (step pb) .closed c) : c = .closed := by
  refine reached.invariant (P := (· = .closed)) ?_ rfl
  rintro _ a d rfl enabled
  contradiction

/-- Whether its body decodes or not, a frame that a session reads to its end is pushed,
or the session is closed. -/
theorem reqCallback_dispatches (pb : Protobuf) (waitingQueueSize : Nat) (items : List Item)
    (rep : Rep o.session) (parsing : o.session.stat ≠ .handling)
    (frame : BeginsFrame (held o.session)) (more : (held o.session).length ≠ 10) :
    (∃ p event, afterCallback (NetGate.reqCallback pb (push waitingQueueSize) o) items =
        .live p (items ++ [.waiting event]) ∧ p.history.pushed = o.history.pushed ++ [event] ∧
        waitingQueueSize < kDefaultMaxQueueSize) ∨
      afterCallback (NetGate.reqCallback pb (push waitingQueueSize) o) items = .closed ∧
        kDefaultMaxQueueSize ≤ waitingQueueSize := by
  have answered := NetGate.reqCallback_answered pb (push waitingQueueSize) rep parsing
  generalize NetGate.reqCallback pb (push waitingQueueSize) o = callback at answered ⊢
  cases answered with
  | rejects parsed => exact absurd parsed frame.not_rejected
  | waits t waits => exact absurd (packed_incomplete_frame waits frame) more
  | refuses type body rest parse parsed found refused =>
    refine .inr ⟨rfl, ?_⟩
    by_contra room
    exact Bool.noConfusion (refused.symm.trans (push_iff.mpr (Nat.not_le.mp room)))
  | accepts type body rest parse t parsed found accepted =>
    exact .inl ⟨_, _, rfl, rfl, push_iff.mp accepted⟩

/-- A header with an empty body and nothing behind it waits in the buffer. -/
theorem reqCallback_waits (pb : Protobuf) (waitingQueueSize : Nat) (items : List Item)
    (rep : Rep o.session) (parsing : o.session.stat ≠ .handling)
    (frame : BeginsFrame (held o.session)) (bare : (held o.session).length = 10) :
    ∃ t, afterCallback (NetGate.reqCallback pb (push waitingQueueSize) o) items =
        .live { o with session := t } items ∧
      Rep t ∧ t.stat ≠ .handling ∧ held t = held o.session := by
  have answered := NetGate.reqCallback_answered pb (push waitingQueueSize) rep parsing
  have waiting := frame.packed_header_only bare
  generalize NetGate.reqCallback pb (push waitingQueueSize) o = callback at answered ⊢
  cases answered with
  | rejects parsed => exact absurd parsed frame.not_rejected
  | refuses type body rest parse parsed => exact Parsed.noConfusion (waiting.symm.trans parsed)
  | accepts type body rest parse t parsed => exact Parsed.noConfusion (waiting.symm.trans parsed)
  | waits t waits kept same head =>
    refine ⟨t, congrArg (Conn.live _) (List.append_nil items), kept, ?_, same⟩
    rcases head with head | body <;> simp [*]

theorem not_ignores_pushed {p : Object} {rest : List Item} {event : ReqEvent}
    (pushed : p.history.pushed = o.history.pushed ++ [event]) : ¬ Ignores o (.live p rest) := by
  intro ignores
  have same : o.history.pushed ++ [event] = o.history.pushed := pushed.symm.trans ignores.1
  exact List.cons_ne_nil event [] (List.append_right_eq_self.mp same)

/-- A header with an empty body waits in the buffer; with the next byte it is dispatched. -/
theorem next_byte_dispatches {t : Session} {size : UInt32} {type : EventType} {items : List Item}
    (request : type.IsRequest) (empty : size.toNat = 0) (rep : Rep t) (parsing : t.stat ≠ .handling)
    (bare : held t = header type size) :
    ∃ d, Reachable (step pb) (.live { o with session := t } items) d ∧ ¬ Ignores o d := by
  have read : held (t.arrive [0]) = header type size ++ [0] := by
    rw [NetGate.held_arrive, bare]
  have frame : BeginsFrame (held (t.arrive [0])) := ⟨type, size, [], [0], request, empty.symm, read⟩
  have more : (held (t.arrive [0])).length ≠ 10 := by
    rw [read, List.length_append, header_length, List.length_singleton]
    decide
  have arrived : step pb (.live { o with session := t } items) (.arrive [0]) =
      some (.live { o with session := t.arrive [0] } items) := rfl
  have called : step pb (.live { o with session := t.arrive [0] } items) (.reqCallback 0) =
      some (afterCallback (NetGate.reqCallback pb (push 0) { o with session := t.arrive [0] })
        items) := rfl
  have dispatches := reqCallback_dispatches (o := { o with session := t.arrive [0] }) pb 0 items
    (NetGate.rep_arrive rep [0]) parsing frame more
  rcases dispatches with ⟨p, event, lives, pushed, _⟩ | ⟨_, full⟩
  · rw [lives] at called
    exact ⟨_, ((Reachable.refl _).next arrived).next called, not_ignores_pushed pushed⟩
  · exact absurd full (by decide)

end Frame

/-- In all that follows the read callback that finds a frame whose body does not decode,
nothing is made of the frame exactly when the callback closes the session: it is handling
a request, or the frame is read to its end and the queue is full. -/
theorem ignores_iff (pb : Protobuf) (self : SessionPtr) (eventType : EventType) (o : Object)
    (inFlight : List Item)
    (reached : Reachable (step pb) (init self eventType) (.live o inFlight))
    (type : EventType) (size : UInt32) (body rest : Bytes)
    (parse : Bytes → Int32 → Bool × Request) (found : pb.parseFromArray type = some parse)
    (length : body.length = size.toNat)
    (begins : held o.session = header type size ++ (body ++ rest))
    (waitingQueueSize : Nat) (d : Conn)
    (stepped : step pb (.live o inFlight) (.reqCallback waitingQueueSize) = some d) :
    ((parse body size.toInt32).1 = false → ∀ e, Reachable (step pb) d e → Ignores o e) ↔
      (parse body size.toInt32).1 = true ∨ o.session.stat = .handling ∨
        kDefaultMaxQueueSize ≤ waitingQueueSize ∧ (body ≠ [] ∨ rest ≠ []) := by
  by_cases decodes : (parse body size.toInt32).1 = true
  · exact iff_of_true (fun invalid => Bool.noConfusion (decodes.symm.trans invalid)) (.inl decodes)
  have invalid : (parse body size.toInt32).1 = false := Bool.eq_false_iff.mpr decodes
  have request : type.IsRequest := by
    by_contra other
    simp [pb.parseFromArray_none.mpr other] at found
  have frame : BeginsFrame (held o.session) := ⟨type, size, body, rest, request, length, begins⟩
  have ignored {c : Conn} (closed : c = .closed) (e : Conn) (later : Reachable (step pb) c e) :
      Ignores o e := by
    subst closed
    rw [closed_of_closed later]
    trivial
  have only : (held o.session).length = 10 ↔ body = [] ∧ rest = [] := by
    rw [begins, List.length_append, header_length, ← List.append_eq_nil_iff,
      ← List.length_eq_zero_iff]
    omega
  cases stepped_of_step stepped
  cases Conn.reachable_inv reached with
  | busy _ handling =>
    rw [NetGate.reqCallback_handling handling]
    exact iff_of_true (fun _ => ignored rfl) (.inr (.inl handling))
  | idle rep stat =>
    by_cases bare : (held o.session).length = 10
    · obtain ⟨t, waits, kept, still, same⟩ :=
        reqCallback_waits pb waitingQueueSize [] rep stat frame bare
      obtain ⟨rfl, rfl⟩ := only.mp bare
      refine iff_of_false (fun ignores => ?_) (by simp [invalid, stat])
      obtain ⟨e, later, pushed⟩ := next_byte_dispatches
        request length.symm kept still (same.trans (begins.trans (List.append_nil _)))
      exact pushed (ignores invalid e (waits ▸ later))
    · have more : body ≠ [] ∨ rest ≠ [] := not_and_or.mp (only.not.mp bare)
      rcases reqCallback_dispatches pb waitingQueueSize [] rep stat frame bare
        with ⟨p, event, lives, pushed, room⟩ | ⟨closed, full⟩
      · rw [lives]
        refine iff_of_false (fun ignores => ?_) (by simp [invalid, stat, Nat.not_le.mpr room])
        exact not_ignores_pushed pushed (ignores invalid _ (.refl _))
      · exact iff_of_true (fun _ => ignored closed) (.inr (.inr ⟨full, more⟩))

/-- A `PhoneReq` frame with a body of one byte that ends inside its first tag. -/
def truncatedFrame : Bytes := ascii "SHBK" ++ [1, 0, 1, 0, 0, 0, 255]

theorem ignores_iff_truncated :
    ∃ o d, Transition.run (step WireFormat.protobuf) (init ⟨4096, 0⟩ .kUnknown)
        [.arrive truncatedFrame] = some (.live o []) ∧
      step WireFormat.protobuf (.live o []) (.reqCallback 0) = some d ∧
      (((WireFormat.protobuf.parsePhoneReq [255] 1).1 = false →
          ∀ e, Reachable (step WireFormat.protobuf) d e → Ignores o e) ↔
        (WireFormat.protobuf.parsePhoneReq [255] 1).1 = true ∨ o.session.stat = .handling ∨
          kDefaultMaxQueueSize ≤ 0 ∧ (([255] : Bytes) ≠ [] ∨ ([] : Bytes) ≠ [])) :=
  ⟨_, _, rfl, rfl, ignores_iff WireFormat.protobuf ⟨4096, 0⟩ .kUnknown _ []
    ⟨[.arrive truncatedFrame], rfl⟩ .kPhoneReq 1 [255] [] _ rfl rfl rfl 0 _ rfl⟩

theorem invalid_body_succeeds :
    (WireFormat.protobuf.parsePhoneReq [255] 1).1 = false ∧
    ∃ o, Transition.run (step WireFormat.protobuf) (init ⟨4096, 0⟩ .kUnknown)
        [.arrive truncatedFrame, .reqCallback 0, .take 0, .work 0 0 .noHandler,
          .work 0 0 .noHandler, .work 0 0 .noHandler, .finish 0, .handleResult 0] =
          some (.live o []) ∧
      o.requests = [.phoneReq ⟨[]⟩] ∧ o.session.stored = ⟨[], 100000⟩ ∧
      o.written = [evPhoneRes 100000 .kSuccess] :=
  ⟨by decide, _, rfl, rfl, rfl, rfl⟩

end Conn
end Shbk2
