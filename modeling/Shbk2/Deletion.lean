import Shbk2.Sequential
import Shbk2.Trace

/-! What a callback still does with a session it has deleted. Neither branch of
`ReqCallback` that deletes the session returns: both go on to the accesses of the
normal path. -/
namespace Shbk2
open MsgProxy

namespace NetGate

/-- The session is deleted at most once, and nothing is done with it after that. -/
def DeletesLast (accesses : List Access) : Prop :=
  accesses.count .delete ≤ 1 ∧ (accesses.dropWhile (· ≠ .delete)).tail = []

instance (accesses : List Access) : Decidable (DeletesLast accesses) :=
  inferInstanceAs (Decidable (_ ∧ _))

/-- The session is left in `HANDLING` exactly when an event was pushed. -/
def HandlesPushed (callback : Callback) : Prop :=
  (∃ o, callback.object = some o ∧ o.session.stat = .handling) ↔ callback.pushed.isSome = true

/-- `Pack` throws nothing, and `Push` takes the event it returns, if there is one. -/
def Accepted (pb : Protobuf) (push : ReqEvent → Bool) (o : Object) : Prop :=
  match pack pb o.self o.session.noticed with
  | .error _ => False
  | .ok (none, _) => True
  | .ok (some event, _) => push event = true

theorem errCallback_deletesLast (events : UInt16) : DeletesLast (errCallback events).accesses := by
  unfold errCallback
  repeat' split
  all_goals decide

section Callback
variable {pb : Protobuf} {push : ReqEvent → Bool} {o : Object}

theorem deletesLast_iff : DeletesLast (reqCallback pb push o).accesses ↔ Accepted pb push o := by
  cases packed : pack pb o.self o.session.noticed with
  | error e =>
    simp only [reqCallback, Accepted, packed]
    decide
  | ok answer =>
    obtain ⟨event, t⟩ := answer
    cases event with
    | none =>
      simp only [reqCallback, Accepted, packed]
      decide
    | some event =>
      simp only [reqCallback, Accepted, packed]
      by_cases accepted : push event = true
      · have last : DeletesLast [.setState, .socket] := by decide
        rw [if_pos accepted]
        exact iff_of_true last accepted
      · have touched : ¬ DeletesLast [.socket, .delete, .setState, .socket] := by decide
        rw [if_neg accepted]
        exact iff_of_false touched accepted

theorem handlesPushed (pb : Protobuf) (push : ReqEvent → Bool) (o : Object) :
    HandlesPushed (reqCallback pb push o) := by
  unfold reqCallback HandlesPushed
  split
  · simp
  · rename_i t packed
    have parsing := pack_stat packed
    simp [parsing]
  · split
    · simp [Session.setState]
    · simp

/-- In terms of the bytes of the client, for a session between callbacks: the header
is right, the type is one of the two, and `Push` takes the event. -/
theorem accepted_iff_held (rep : Rep o.session) : Accepted pb push o ↔
    o.session.stat ≠ .handling ∧ packed (held o.session) ≠ .unknownIdentifier ∧
      packed (held o.session) ≠ .unknownType ∧
      ∀ type body rest parse, packed (held o.session) = .frame type body rest →
        pb.parseFromArray type = some parse →
        push ⟨o.self, (parse body (UInt32.ofNat body.length).toInt32).2⟩ = true := by
  by_cases handling : o.session.stat = .handling
  · have thrown : pack pb o.self o.session.noticed = .error (.exception "invalid session state") :=
      if_pos handling
    simp [Accepted, thrown, handling]
  · have answers : Answers pb o.self o.session.noticed (held o.session)
        (pack pb o.self o.session.noticed) (packed (held o.session)) :=
      pack_answers (rep_noticed rep) handling
    cases parsed : packed (held o.session) with
    | incomplete =>
      rw [parsed] at answers
      obtain ⟨t, result, _⟩ := answers
      simp [Accepted, result, handling]
    | unknownIdentifier | unknownType =>
      rw [parsed] at answers
      have thrown : pack pb o.self o.session.noticed = .error _ := answers
      simp [Accepted, thrown]
    | frame type body rest =>
      rw [parsed] at answers
      obtain ⟨parse, t, found, result, _⟩ := answers
      simp only [Accepted, result, ne_eq, handling, not_false_eq_true, reduceCtorEq, true_and,
        Parsed.frame.injEq]
      constructor
      · rintro accepted _ _ _ parse' ⟨rfl, rfl, rfl⟩ found'
        obtain rfl := Option.some.inj (found.symm.trans found')
        exact accepted
      · intro accepted
        exact accepted type body rest parse ⟨rfl, rfl, rfl⟩ found

end Callback

/-- The callbacks leave a session they destroyed alone exactly when the read callback
has no reason to destroy it. -/
theorem leavesAlone_iff_accepted (pb : Protobuf) (push : ReqEvent → Bool) (o : Object)
    (events : UInt16) :
    (DeletesLast (reqCallback pb push o).accesses ∧ HandlesPushed (reqCallback pb push o)) ∧
        DeletesLast (errCallback events).accesses ↔
      Accepted pb push o := by
  rw [deletesLast_iff, and_iff_left (errCallback_deletesLast events),
    and_iff_left (handlesPushed pb push o)]

/-- Ten bytes that are no header: the log line of the early return reads the socket. -/
theorem wrong_header_touched :
    ∃ callback, callback = reqCallback
        ⟨fun _ _ => (false, ⟨[]⟩), fun _ _ => (false, ⟨[], 0⟩)⟩ (fun _ => true)
        ⟨⟨0, 0⟩, (Session.new .kUnknown).arrive (ascii "GET / HTTP"), ⟨[], [], []⟩⟩ ∧
      callback.accesses = [.socket, .delete, .socket] ∧ ¬ DeletesLast callback.accesses :=
  ⟨_, rfl, rfl, by decide⟩

end NetGate
end Shbk2
