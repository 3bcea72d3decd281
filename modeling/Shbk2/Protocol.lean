import Shbk2.LoginSoundness
import Shbk2.Correspondence

/-! The login protocol of one session as a reference that handles a request at a
time and replaces the stored pair as a whole. The workers, which read and write
the two fields one by one and interleave with each other, give its answers. -/
namespace Shbk2
open Transition

/-- What a response tells: the identifier sent, or whether the login was invalid. -/
inductive Verdict where
  | issued (identifier : Int32)
  | decided (invalid : Bool)
  deriving DecidableEq

def Response.verdict : Response → Verdict
  | .phoneRes message => .issued message.identifier
  | .loginRes message => .decided (message.code = ErrorCode.kInvalidData.value)

theorem verdict_evLoginRes (code : ErrorCode) :
    (evLoginRes code).verdict = .decided (code = .kInvalidData) := by
  simp only [evLoginRes, Response.verdict, ErrorCode.value_injective.eq_iff]

/-- The requests in order, each given the next drawn identifier if it needs one. -/
def reference : Stored → List Int32 → List Request → List Verdict
  | _, _, [] => []
  | _, draws, .phoneReq message :: requests =>
    .issued (draws.headD 0) :: reference ⟨message.phoneNumber, draws.headD 0⟩ draws.tail requests
  | stored, draws, .loginReq message :: requests =>
    .decided (stored ≠ ⟨message.phoneNumber, message.identifier⟩) :: reference stored draws requests

/-- The stored pair is that of one answered `PhoneReq`, or of a new session. -/
def Object.Whole (o : Object) : Prop :=
  o.session.stored = ⟨[], 0⟩ ∨
    Issued o.history.handled o.session.stored.phoneNumber o.session.stored.identifier

def Position.Checks : Position → Prop
  | .loginReq _ | .phoneNumberMatched _ => True
  | _ => False

/-- The responses so far are those of the reference, and no login check in a
worker looks at the halves of two pairs. -/
structure Object.Refines (o : Object) (items : List Item) : Prop where
  verdicts : o.written.map Response.verdict =
    (reference ⟨[], 0⟩ o.history.drawn o.requests).take o.written.length
  whole : ∀ event position, .running event position ∈ items → position.Checks → o.Whole

/-- The exchanges of a session answer as the reference, and leave it in the same state. -/
theorem Sequential.reference {handled : List Exchange} {drawn : List Int32} {stored : Stored}
    (sequential : Sequential handled drawn stored) (more : List Int32) (requests : List Request) :
    reference ⟨[], 0⟩ (drawn ++ more) (handled.map (·.request) ++ requests) =
      handled.map (·.response.verdict) ++ Shbk2.reference stored more requests := by
  induction sequential generalizing more requests with
  | start => rfl
  | phone message identifier _ ih =>
    simp only [List.map_append, List.append_assoc, List.map_singleton, List.singleton_append, ih]
    rfl
  | @login handled _ stored message _ ih =>
    have decision : (evLoginRes
        (if stored = ⟨message.phoneNumber, message.identifier⟩ then ErrorCode.kSuccess
          else .kInvalidData)).verdict =
        .decided (stored ≠ ⟨message.phoneNumber, message.identifier⟩) := by
      rw [verdict_evLoginRes]
      by_cases matched : stored = ⟨message.phoneNumber, message.identifier⟩ <;> simp [matched]
    simp only [List.map_append, List.append_assoc, List.map_singleton, List.singleton_append, ih,
      decision]
    rfl

theorem Sequential.whole {o : Object} {drawn : List Int32}
    (sequential : Sequential o.history.handled drawn o.session.stored) : o.Whole := by
  rcases sequential.stored_issued with ⟨_, new⟩ | issued
  · exact .inl new
  · exact .inr issued

theorem Conn.Inv.refines {o : Object} {inFlight : List Item} (inv : Inv (.live o inFlight)) :
    o.Refines inFlight := by
  obtain ⟨⟨later, requests⟩, ⟨unwritten, written⟩, _, _, _⟩ := inv.record
  obtain ⟨before, old, ⟨more, drawn⟩, sequential⟩ := inv.sequential
  constructor
  · have answers := sequential.reference more later
    rw [drawn, show o.history.handled.map (·.request) ++ later = o.requests from requests] at answers
    have verdicts : o.history.handled.map (·.response.verdict) = o.responses.map Response.verdict := by
      rw [Object.responses, List.map_map]
      rfl
    rw [answers, verdicts, ← written, List.map_append, List.append_assoc, ← List.length_map]
    exact List.take_left.symm
  · intro event position member checks
    cases inv with
    | idle => contradiction
    | busy _ _ _ _ underway =>
      obtain rfl := List.mem_singleton.mp member
      obtain ⟨_, _, handling⟩ := underway
      cases position with
      | loginReq message => exact handling.2.whole
      | phoneNumberMatched message => exact handling.2.1.whole
      | _ => exact checks.elim

namespace World

def Refines (w : World) : Prop :=
  ∀ addr o, w.heap addr = some o → o.Refines (w.itemsAt addr)

/-- In every run that deletes no session while its request is handled, each session is
answered as by the reference. -/
theorem refines_of_spares (pb : Protobuf) (db : Database) (workers : Nat) (table : List Bytes)
    (actions : List Action)
    (spares : Along (step pb db) Spares (init workers table) actions) :
    Always (step pb db) Refines (init workers table) actions :=
  (safe_run spares).mono fun _ safe _ _ lives => (safe.1.inv lives).refines

/-- A client logs in with what it was sent. -/
def loginRun : List Action :=
  answeredRun ++ [.arrive 4096 (ascii "SHBK" ++ [3, 0, 7, 0, 0, 0, 10, 1, 49, 16, 160, 141, 6]),
    .reqCallback 4096, .take 0, .work 0 0 ⟨[], 0⟩ .executed, .work 0 0 ⟨[], 0⟩ .executed,
    .work 0 0 ⟨[], 0⟩ .noHandler, .work 0 0 ⟨[], 0⟩ .noHandler, .finish 0, .handleResults]

theorem refines_of_spares_login :
    ∃ w o, run (step WireFormat.protobuf ⟨fun _ _ => none⟩) (init 1 []) loginRun = some w ∧
      w.heap 4096 = some o ∧ o.written = [evPhoneRes 100000 .kSuccess, evLoginRes .kSuccess] ∧
      o.Refines (w.itemsAt 4096) := by
  obtain ⟨w, o, ran, lives, written⟩ : ∃ w o,
      run (step WireFormat.protobuf ⟨fun _ _ => none⟩) (init 1 []) loginRun = some w ∧
        w.heap 4096 = some o ∧
        o.written = [evPhoneRes 100000 .kSuccess, evLoginRes .kSuccess] := ⟨_, _, rfl, rfl, rfl⟩
  have refines := refines_of_spares WireFormat.protobuf ⟨fun _ _ => none⟩ 1 [] loginRun
    (along_of_decide (by decide +kernel))
  exact ⟨w, o, ran, lives, written, refines.final ran 4096 o lives⟩

/-- The second client logs in with what the first was given, while the worker of
the first is still there. -/
def strangerRun : List Action :=
  [.accept 4096 .kUnknown, .arrive 4096 (ascii "SHBK" ++ [1, 0, 3, 0, 0, 0, 10, 1, 49]),
    .reqCallback 4096, .errCallback 4096 0x11, .accept 4096 .kUnknown, .take 0,
    .work 0 0 ⟨[], 0⟩ .executed, .work 0 0 ⟨[], 0⟩ .executed,
    .arrive 4096 (ascii "SHBK" ++ [3, 0, 7, 0, 0, 0, 10, 1, 49, 16, 160, 141, 6]),
    .reqCallback 4096, .take 1, .work 1 0 ⟨[], 0⟩ .executed, .work 1 0 ⟨[], 0⟩ .executed,
    .work 1 0 ⟨[], 0⟩ .noHandler, .work 1 0 ⟨[], 0⟩ .noHandler, .finish 1, .handleResults]

theorem stranger_logs_in :
    ∃ w o, run (step WireFormat.protobuf ⟨fun _ _ => none⟩) (init 2 []) strangerRun = some w ∧
      w.heap 4096 = some o ∧ o.requests = [.loginReq ⟨[49], 100000⟩] ∧
      o.written = [evLoginRes .kSuccess] ∧ ¬ Refines w := by
  obtain ⟨w, o, ran, lives, requests, written⟩ : ∃ w o,
      run (step WireFormat.protobuf ⟨fun _ _ => none⟩) (init 2 []) strangerRun = some w ∧
        w.heap 4096 = some o ∧ o.requests = [.loginReq ⟨[49], 100000⟩] ∧
        o.written = [evLoginRes .kSuccess] := ⟨_, _, rfl, rfl, rfl, rfl⟩
  refine ⟨w, o, ran, lives, requests, written, fun refines => ?_⟩
  have verdicts := (refines 4096 o lives).verdicts
  have expected : reference ⟨[], 0⟩ o.history.drawn [.loginReq ⟨[49], 100000⟩] =
      [.decided true] := rfl
  rw [requests, written, expected] at verdicts
  exact absurd verdicts (by decide)

end World
end Shbk2
