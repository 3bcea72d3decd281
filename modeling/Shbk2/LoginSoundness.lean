import Shbk2.Sequential
import Shbk2.WireFormat

/-! When a successful login proves that the client was sent the identifier. The
handler compares the request with the stored pair, which a new session does not
leave unset but has as the empty phone number and zero. -/
namespace Shbk2

/-- A session's exchanges that contain no request of the phone type. -/
def NoPhone (requests : List Request) : Prop := ∀ request ∈ requests, request.type ≠ .kPhoneReq

/-- The most recent `PhoneReq` carried this phone number and was answered with
this identifier. -/
def Issued (handled : List Exchange) (phoneNumber : Bytes) (identifier : Int32) : Prop :=
  ∃ earlier later answer, handled = earlier ++ ⟨.phoneReq ⟨phoneNumber⟩, .phoneRes answer⟩ :: later ∧
    answer.identifier = identifier ∧ NoPhone (later.map (·.request))

/-- Every successful login repeats what the most recent `PhoneReq` before it
carried and was answered. -/
def LoginSound (handled : List Exchange) : Prop :=
  ∀ before after message response,
    handled = before ++ ⟨.loginReq message, .loginRes response⟩ :: after →
    response.code = ErrorCode.kSuccess.value →
    Issued before message.phoneNumber message.identifier

/-- A `LoginReq` with the two default values comes before the first `PhoneReq`. -/
def DefaultLogin (requests : List Request) : Prop :=
  ∃ before after, requests = before ++ .loginReq ⟨[], 0⟩ :: after ∧ NoPhone before

theorem noPhone_concat {requests : List Request} {request : Request} :
    NoPhone (requests ++ [request]) ↔ NoPhone requests ∧ request.type ≠ .kPhoneReq := by
  simp only [NoPhone, List.mem_append, List.mem_singleton, or_imp, forall_and, forall_eq]

theorem login_type (message : LoginReq) : (Request.loginReq message).type ≠ .kPhoneReq := by
  rw [Request.type]
  decide

theorem issued_noPhone {handled : List Exchange} {phoneNumber : Bytes} {identifier : Int32}
    (issued : Issued handled phoneNumber identifier) : ¬ NoPhone (handled.map (·.request)) := by
  intro none
  obtain ⟨earlier, later, answer, rfl, _, _⟩ := issued
  exact none (.phoneReq ⟨phoneNumber⟩) (by simp) rfl

theorem issued_concat {handled : List Exchange} {phoneNumber : Bytes} {identifier : Int32}
    {exchange : Exchange} (issued : Issued handled phoneNumber identifier)
    (other : exchange.request.type ≠ .kPhoneReq) :
    Issued (handled ++ [exchange]) phoneNumber identifier := by
  obtain ⟨earlier, later, answer, rfl, given, none⟩ := issued
  refine ⟨earlier, later ++ [exchange], answer, ?_, given, ?_⟩
  · rw [List.append_assoc, List.cons_append]
  · rw [List.map_append]
    exact noPhone_concat.mpr ⟨none, other⟩

/-- How a list that ends in one element can be cut at an element. -/
theorem concat_eq_append_cons {α : Type} {list before after : List α} {last mid : α} :
    list ++ [last] = before ++ mid :: after ↔
      (list = before ∧ last = mid ∧ after = []) ∨
        ∃ most, after = most ++ [last] ∧ list = before ++ mid :: most := by
  constructor
  · intro same
    rcases List.eq_nil_or_concat after with rfl | ⟨most, end', rfl⟩
    · obtain ⟨rfl, single⟩ := List.append_inj' same rfl
      exact .inl ⟨rfl, (List.cons.inj single).1, rfl⟩
    · have split : list ++ [last] = (before ++ mid :: most) ++ [end'] := by
        simpa only [List.concat_eq_append, List.append_assoc, List.cons_append] using same
      obtain ⟨rfl, single⟩ := List.append_inj' split rfl
      obtain rfl := (List.cons.inj single).1
      exact .inr ⟨most, List.concat_eq_append, rfl⟩
  · rintro (⟨rfl, rfl, rfl⟩ | ⟨most, rfl, rfl⟩)
    · rfl
    · simp

theorem loginSound_concat {handled : List Exchange} {exchange : Exchange} :
    LoginSound (handled ++ [exchange]) ↔ LoginSound handled ∧
      ∀ message response, exchange = ⟨.loginReq message, .loginRes response⟩ →
        response.code = ErrorCode.kSuccess.value →
        Issued handled message.phoneNumber message.identifier := by
  constructor
  · intro sound
    constructor
    · rintro before after message response rfl success
      exact sound before (after ++ [exchange]) message response (by simp) success
    · rintro message response rfl success
      exact sound handled [] message response rfl success
  · rintro ⟨sound, last⟩ before after message response split success
    rcases concat_eq_append_cons.mp split with ⟨rfl, rfl, _⟩ | ⟨most, _, rfl⟩
    · exact last message response rfl success
    · exact sound before most message response rfl success

theorem defaultLogin_concat {requests : List Request} {request : Request} :
    DefaultLogin (requests ++ [request]) ↔
      DefaultLogin requests ∨ request = .loginReq ⟨[], 0⟩ ∧ NoPhone requests := by
  constructor
  · rintro ⟨before, after, split, none⟩
    rcases concat_eq_append_cons.mp split with ⟨rfl, rfl, _⟩ | ⟨most, _, rfl⟩
    · exact .inr ⟨rfl, none⟩
    · exact .inl ⟨before, most, rfl, none⟩
  · rintro (⟨before, after, rfl, none⟩ | ⟨rfl, none⟩)
    · exact ⟨before, after ++ [request], by simp, none⟩
    · exact ⟨requests, [], rfl, none⟩

namespace Sequential
variable {handled : List Exchange} {drawn : List Int32} {stored : Stored}

/-- The stored pair is the one issued last, or the one a new session has. -/
theorem stored_issued (sequential : Sequential handled drawn stored) :
    (NoPhone (handled.map (·.request)) ∧ stored = ⟨[], 0⟩) ∨
      Issued handled stored.phoneNumber stored.identifier := by
  induction sequential with
  | start => exact .inl ⟨by simp [NoPhone], rfl⟩
  | phone message identifier _ _ =>
    exact .inr ⟨_, [], ⟨_, _, identifier⟩, rfl, rfl, by simp [NoPhone]⟩
  | @login handled _ stored message _ ih =>
    rcases ih with ⟨none, default⟩ | issued
    · refine .inl ⟨?_, default⟩
      rw [List.map_append]
      exact noPhone_concat.mpr ⟨none, login_type message⟩
    · exact .inr (issued_concat issued (login_type message))

theorem loginSound_iff (sequential : Sequential handled drawn stored) :
    LoginSound handled ↔ ¬ DefaultLogin (handled.map (·.request)) := by
  induction sequential with
  | start =>
    constructor
    · rintro _ ⟨before, after, split, _⟩
      simp at split
    · intro _ before after message response split
      simp at split
  | phone message identifier _ ih =>
    rw [loginSound_concat, List.map_append, List.map_singleton, defaultLogin_concat, ih]
    simp
  | @login handled _ stored message sequential ih =>
    rw [loginSound_concat, List.map_append, List.map_singleton, defaultLogin_concat, ih, not_or]
    refine and_congr_right fun _ => ?_
    constructor
    · -- Success on the default pair before any `PhoneReq` is the one unsound login.
      rintro last ⟨default, none⟩
      obtain rfl := Request.loginReq.inj default
      rcases stored_issued sequential with ⟨_, rfl⟩ | issued
      · exact issued_noPhone (last _ _ rfl rfl) none
      · exact issued_noPhone issued none
    · intro other m response same success
      obtain ⟨request, result⟩ := Exchange.mk.inj same
      obtain rfl := Request.loginReq.inj request
      obtain rfl := Response.loginRes.inj result
      have matched : stored = ⟨message.phoneNumber, message.identifier⟩ := by
        have code := ErrorCode.value_injective success
        by_contra differs
        rw [if_neg differs] at code
        contradiction
      subst matched
      rcases stored_issued sequential with ⟨none, default⟩ | issued
      · obtain ⟨phone, identifier⟩ := Stored.mk.inj default
        exact absurd ⟨congrArg Request.loginReq (by cases message; simp_all), none⟩ other
      · exact issued

end Sequential

/-- The logins of a session are sound exactly when the client does not open with
a login that sends the default values. -/
theorem loginSound_iff_no_defaultLogin (pb : Protobuf) (self : SessionPtr) (eventType : EventType)
    (o : Object) (inFlight : List Item)
    (reached : Transition.Reachable (Conn.step pb) (Conn.init self eventType) (.live o inFlight)) :
    LoginSound o.history.handled ↔ ¬ DefaultLogin o.answered := by
  obtain ⟨_, _, _, sequential⟩ := (Conn.reachable_inv reached).sequential
  exact sequential.loginSound_iff

/-- The login of a client that asked for no identifier: an empty phone number and zero. -/
def defaultLoginRun : List Conn.Action :=
  [.arrive (ascii "SHBK" ++ [3, 0, 4, 0, 0, 0, 10, 0, 16, 0]), .reqCallback 0, .take 0,
    .work 0 0 .noHandler, .work 0 0 .noHandler, .work 0 0 (.affected 1), .finish 0]

theorem loginSound_iff_no_defaultLogin_run :
    ∃ o inFlight, Transition.run (Conn.step WireFormat.protobuf) (.init ⟨4096, 0⟩ .kUnknown)
        defaultLoginRun = some (.live o inFlight) ∧
      (LoginSound o.history.handled ↔ ¬ DefaultLogin o.answered) :=
  ⟨_, _, rfl, loginSound_iff_no_defaultLogin WireFormat.protobuf ⟨4096, 0⟩ .kUnknown _ _
    ⟨defaultLoginRun, rfl⟩⟩

theorem default_login_succeeds :
    ∃ o inFlight, Transition.Reachable (Conn.step WireFormat.protobuf) (.init ⟨4096, 0⟩ .kUnknown)
        (.live o inFlight) ∧
      o.history.handled = [⟨.loginReq ⟨[], 0⟩, evLoginRes .kSuccess⟩] ∧
      ¬ LoginSound o.history.handled := by
  refine ⟨_, _, ⟨defaultLoginRun, rfl⟩, rfl, ?_⟩
  intro sound
  obtain ⟨earlier, later, answer, split, _⟩ := sound [] [] ⟨[], 0⟩ ⟨200, "ok."⟩ rfl rfl
  simp at split

end Shbk2
