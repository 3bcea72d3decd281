import Shbk2.Dangling

/-! Requests and responses of a session, over the whole server. Results come back
through a raw pointer, so they correspond to the requests of the session at that
address as long as no session is deleted while the pool refers to it. -/
namespace Shbk2
open Transition

/-- The type of the result of a request's handler. -/
def Request.resultType : Request → EventType
  | .phoneReq _ => .kPhoneRes
  | .loginReq _ => .kLoginRes

/-- The `k`-th event written is what handling the `k`-th event pushed returned. -/
def Object.Answers (o : Object) : Prop :=
  ∀ (k : Nat) (result : ResEvent), o.session.bufev.output[k]? = some result →
    ∃ event : ReqEvent, o.history.pushed[k]? = some event ∧ result.session = event.session ∧
      o.history.handled[k]? = some ⟨event.message, result.message⟩ ∧
      result.message.type = event.message.resultType

/-- A session and the number of its items in the pool. -/
structure Object.Corresponds (o : Object) (inPool : Nat) : Prop where
  written : o.session.bufev.output.length ≤ o.history.pushed.length
  outstanding : o.history.pushed.length - o.session.bufev.output.length =
    if o.session.stat = .handling then 1 else 0
  inPool : inPool = o.history.pushed.length - o.session.bufev.output.length
  answers : o.Answers

theorem Sequential.resultType {handled : List Exchange} {drawn : List Int32} {stored : Stored}
    (sequential : Sequential handled drawn stored) :
    ∀ exchange ∈ handled, exchange.response.type = exchange.request.resultType := by
  induction sequential with
  | start => exact fun _ member => absurd member List.not_mem_nil
  | phone message identifier _ ih | login message _ ih =>
    intro exchange member
    rcases List.mem_append.mp member with old | new
    · exact ih exchange old
    · rw [List.mem_singleton.mp new]
      rfl

theorem getElem?_of_prefix {α : Type} {first all : List α} {k : Nat} {a : α} (part : first <+: all)
    (get : first[k]? = some a) : all[k]? = some a := by
  obtain ⟨rest, rfl⟩ := part
  rw [List.getElem?_append_left (List.getElem?_eq_some_iff.mp get).1]
  exact get

theorem Conn.Inv.answers {o : Object} {inFlight : List Item} (inv : Inv (.live o inFlight)) :
    o.Answers := by
  obtain ⟨answered, written, owns, _, _⟩ := inv.record
  obtain ⟨before, old, _, sequential⟩ := inv.sequential
  intro k result get
  have response : o.responses[k]? = some result.message := by
    apply getElem?_of_prefix written
    rw [Object.written, List.getElem?_map, get, Option.map_some]
  rw [Object.responses, List.getElem?_map] at response
  obtain ⟨exchange, handled, same⟩ := Option.map_eq_some_iff.mp response
  have request : o.requests[k]? = some exchange.request := by
    apply getElem?_of_prefix answered
    rw [Object.answered, List.getElem?_map, handled, Option.map_some]
  rw [Object.requests, List.getElem?_map] at request
  obtain ⟨event, pushed, asked⟩ := Option.map_eq_some_iff.mp request
  refine ⟨event, pushed, ?_, ?_, ?_⟩
  · rw [owns.1 event (List.mem_of_getElem? pushed), owns.2 result (List.mem_of_getElem? get)]
  · rw [handled, asked, ← same]
  · rw [asked, ← same]
    exact sequential.resultType exchange (List.mem_of_getElem? handled)

theorem Conn.Inv.corresponds {o : Object} {inFlight : List Item} (inv : Inv (.live o inFlight)) :
    o.Corresponds inFlight.length := by
  obtain ⟨_, _, _, count, flight⟩ := inv.record
  simp only [Object.requests, Object.written, List.length_map] at count
  refine ⟨by omega, ?_, by omega, inv.answers⟩
  rw [← flight]
  omega

namespace World

def Corresponds (w : World) : Prop :=
  ∀ addr o, w.heap addr = some o → o.Corresponds (w.itemsAt addr).length

/-- Requests and responses correspond in every state of the runs that delete no session
while its request is handled. -/
theorem corresponds_of_spares (pb : Protobuf) (db : Database) (workers : Nat) (table : List Bytes)
    (actions : List Action)
    (spares : Along (step pb db) Spares (init workers table) actions) :
    Always (step pb db) Corresponds (init workers table) actions :=
  (safe_run spares).mono fun _ safe _ _ lives => (safe.1.inv lives).corresponds

theorem corresponds_of_spares_answered :
    ∃ w o, run (step WireFormat.protobuf ⟨fun _ _ => none⟩) (init 1 []) answeredRun = some w ∧
      w.heap 4096 = some o ∧ o.session.bufev.output = [⟨⟨4096, 0⟩, evPhoneRes 100000 .kSuccess⟩] ∧
      o.Corresponds (w.itemsAt 4096).length := by
  obtain ⟨w, o, ran, lives, output⟩ : ∃ w o,
      run (step WireFormat.protobuf ⟨fun _ _ => none⟩) (init 1 []) answeredRun = some w ∧
        w.heap 4096 = some o ∧ o.session.bufev.output = [⟨⟨4096, 0⟩, evPhoneRes 100000 .kSuccess⟩] :=
    ⟨_, _, rfl, rfl, rfl⟩
  have always := corresponds_of_spares WireFormat.protobuf ⟨fun _ _ => none⟩ 1 [] answeredRun
    answeredRun_spares
  exact ⟨w, o, ran, lives, output, always.final ran 4096 o lives⟩

/-- A client disconnects while its request waits, and the next one gets its
session at the address that became free. -/
def reuseRun : List Action :=
  [.accept 4096 .kUnknown, .arrive 4096 (ascii "SHBK" ++ [1, 0, 2, 0, 0, 0, 10, 0]),
    .reqCallback 4096, .errCallback 4096 0x11, .accept 4096 .kUnknown, .take 0,
    .work 0 0 ⟨[], 0⟩ .executed, .work 0 0 ⟨[], 0⟩ .executed, .work 0 0 ⟨[], 0⟩ .executed,
    .finish 0, .handleResults]

/-- The second client, which sent nothing, is sent the answer to the first. -/
theorem answer_to_another_session :
    ∃ w o, run (step WireFormat.protobuf ⟨fun _ _ => none⟩) (init 1 []) reuseRun = some w ∧
      w.heap 4096 = some o ∧ o.self = ⟨4096, 1⟩ ∧ o.history.pushed = [] ∧
      o.session.bufev.output = [⟨⟨4096, 0⟩, evPhoneRes 100000 .kSuccess⟩] ∧ ¬ Corresponds w := by
  obtain ⟨w, o, ran, lives, self, pushed, output⟩ : ∃ w o,
      run (step WireFormat.protobuf ⟨fun _ _ => none⟩) (init 1 []) reuseRun = some w ∧
        w.heap 4096 = some o ∧ o.self = ⟨4096, 1⟩ ∧ o.history.pushed = [] ∧
        o.session.bufev.output = [⟨⟨4096, 0⟩, evPhoneRes 100000 .kSuccess⟩] :=
    ⟨_, _, rfl, rfl, rfl, rfl, rfl⟩
  refine ⟨w, o, ran, lives, self, pushed, output, fun corresponds => ?_⟩
  have written := (corresponds 4096 o lives).written
  rw [pushed, output] at written
  exact absurd written (by decide)

end World
end Shbk2
