import Shbk2.Execute
import Shbk2.UserTable

/-! The answer to a login, for one worker alone with the database. Every login
whose credentials match is answered with success: the code is right exactly where
the database let the handler find or add the row. -/
namespace Shbk2

/-- How a look-up goes: as any call, or the statement is executed and storing its
result fails. -/
inductive LookUp where
  | called (outcome : Outcome)
  | unstored
  deriving DecidableEq

/-- A call of `IsExist`. -/
def Database.lookUp (db : Database) (table : List Bytes) (phoneNumber : Bytes) :
    LookUp → List Bytes × UserDAO.Execution
  | .called outcome => db.call table (some (UserDAO.selectUser phoneNumber)) outcome
  | .unstored =>
    ((db.call table (some (UserDAO.selectUser phoneNumber)) .executed).1, .affected rowsOnError)

namespace LoginReqEventHandler

/-- `Handle`, with the table it leaves behind. -/
def handle (db : Database) (session : Stored) (message : LoginReq) (table : List Bytes)
    (lookUp : LookUp) (insertion : Outcome) : Response × List Bytes :=
  if session.phoneNumber ≠ message.phoneNumber ∨ session.identifier ≠ message.identifier then
    (evLoginRes .kInvalidData, table)
  else
    let asked := db.lookUp table message.phoneNumber lookUp
    if !UserDAO.isExist asked.2 then
      let added := db.call asked.1 (some (UserDAO.insertUser message.phoneNumber)) insertion
      if !UserDAO.insert added.2 then
        (Position.finishLogin (some (evLoginRes .kProcessFailed)), added.1)
      else (Position.finishLogin none, added.1)
    else (Position.finishLogin none, asked.1)

/-- The session holds the credentials of the request. -/
def Matches (session : Stored) (message : LoginReq) : Prop :=
  session.phoneNumber = message.phoneNumber ∧ session.identifier = message.identifier

section Response
variable (db : Database) (session : Stored) (message : LoginReq) (table : List Bytes)
  (lookUp : LookUp) (insertion : Outcome)

/-- The two calls of a login whose credentials match. -/
def asked : List Bytes × UserDAO.Execution := db.lookUp table message.phoneNumber lookUp

def added : List Bytes × UserDAO.Execution :=
  db.call (asked db message table lookUp).1 (some (UserDAO.insertUser message.phoneNumber)) insertion

/-- Invalid data means a mismatch, success a row, and two calls without success a
failure. -/
structure Exact : Prop where
  invalidData : (handle db session message table lookUp insertion).1 = evLoginRes .kInvalidData ↔
    ¬ Matches session message
  success : (handle db session message table lookUp insertion).1 = evLoginRes .kSuccess →
    Matches session message ∧
      message.phoneNumber ∈ (handle db session message table lookUp insertion).2
  processFailed : Matches session message →
    UserDAO.isExist (asked db message table lookUp).2 = false →
    UserDAO.insert (added db message table lookUp insertion).2 = false →
    (handle db session message table lookUp insertion).1 = evLoginRes .kProcessFailed

/-- The row is there when the look-up reports it, or else the insertion succeeds and
adds it. -/
def Recorded : Prop :=
  if UserDAO.isExist (asked db message table lookUp).2 then
    message.phoneNumber ∈ (asked db message table lookUp).1
  else
    UserDAO.insert (added db message table lookUp insertion).2 = true ∧
      message.phoneNumber ∈ (added db message table lookUp insertion).1

end Response

theorem evLoginRes_injective : Function.Injective evLoginRes := by
  intro a b same
  exact ErrorCode.value_injective (LoginRes.mk.inj (Response.loginRes.inj same)).1

section Handle
variable {db : Database} {session : Stored} {message : LoginReq} {table : List Bytes}
  {lookUp : LookUp} {insertion : Outcome}

theorem handle_mismatch (db : Database) (table : List Bytes) (lookUp : LookUp)
    (insertion : Outcome) (mismatch : ¬ Matches session message) :
    handle db session message table lookUp insertion = (evLoginRes .kInvalidData, table) :=
  if_pos (not_and_or.mp mismatch)

/-- Whatever became of the two calls, a login that matches is answered with success. -/
theorem handle_match (db : Database) (table : List Bytes) (lookUp : LookUp)
    (insertion : Outcome) (same : Matches session message) :
    handle db session message table lookUp insertion = (evLoginRes .kSuccess,
      if UserDAO.isExist (asked db message table lookUp).2 then (asked db message table lookUp).1
      else (added db message table lookUp insertion).1) := by
  have matched : ¬ (session.phoneNumber ≠ message.phoneNumber ∨
      session.identifier ≠ message.identifier) := by
    rw [← not_and_or, not_not]
    exact same
  rw [handle, if_neg matched]
  cases found : UserDAO.isExist (asked db message table lookUp).2 with
  | true =>
    rw [asked] at found
    simp only [asked, found, Bool.not_true, Bool.false_eq_true, if_false, if_true,
      Position.finishLogin]
  | false =>
    rw [asked] at found
    simp only [added, asked, found, Bool.not_false, Bool.false_eq_true, if_false, if_true,
      Position.finishLogin, ite_self]

theorem exact_of_mismatch (mismatch : ¬ Matches session message) :
    Exact db session message table lookUp insertion := by
  have answer := handle_mismatch db table lookUp insertion mismatch
  refine ⟨?_, fun success => ?_, fun matched => absurd matched mismatch⟩
  · rw [answer]
    exact iff_of_true rfl mismatch
  · rw [answer] at success
    exact absurd (evLoginRes_injective success) (by decide)

theorem recorded_of_exact (same : Matches session message)
    (exact : Exact db session message table lookUp insertion) :
    Recorded db message table lookUp insertion := by
  have answer := handle_match db table lookUp insertion same
  have present := (exact.success (by rw [answer])).2
  rw [answer] at present
  rw [Recorded]
  split
  · rename_i found
    rwa [if_pos found] at present
  · rename_i missing
    rw [if_neg missing] at present
    refine ⟨?_, present⟩
    by_contra failed
    have answered := exact.processFailed same (by simpa using missing) (by simpa using failed)
    rw [answer] at answered
    exact absurd (evLoginRes_injective answered) (by decide)

theorem exact_of_recorded (same : Matches session message)
    (recorded : Recorded db message table lookUp insertion) :
    Exact db session message table lookUp insertion := by
  have answer := handle_match db table lookUp insertion same
  refine ⟨⟨fun invalid => ?_, fun mismatch => absurd same mismatch⟩, fun _ => ⟨same, ?_⟩, ?_⟩
  · rw [answer] at invalid
    exact absurd (evLoginRes_injective invalid) (by decide)
  · rw [answer]
    rw [Recorded] at recorded
    split
    · rename_i found
      rwa [if_pos found] at recorded
    · rename_i missing
      rw [if_neg missing] at recorded
      exact recorded.2
  · intro _ missing failed
    rw [Recorded, missing, failed] at recorded
    exact absurd recorded.1 Bool.false_ne_true

/-- The answer is exact exactly when there is no login to record, or it is recorded. -/
theorem exact_iff_recorded : Exact db session message table lookUp insertion ↔
    (Matches session message → Recorded db message table lookUp insertion) := by
  constructor
  · intro exact same
    exact recorded_of_exact same exact
  · intro recorded
    by_cases same : Matches session message
    · exact exact_of_recorded same (recorded same)
    · exact exact_of_mismatch same

/-- The worker that finds the session unchanged at each access returns this answer. -/
theorem positions_handle (rand : Nat) (any : UserDAO.Execution) :
    let next := fun execution (position : Position) => (position.step session rand execution).2
    next (added db message table lookUp insertion).2 (next (asked db message table lookUp).2
        (next any (next any (.start (.loginReq message))))) =
      .returned (handle db session message table lookUp insertion).1 := by
  intro next
  by_cases same : Matches session message
  · obtain ⟨phoneNumber, identifier⟩ := same
    have matched : next any (next any (.start (.loginReq message))) = .matched message := by
      simp [next, Position.start, Position.step, phoneNumber, identifier]
    rw [matched, handle_match _ _ _ _ ⟨phoneNumber, identifier⟩]
    cases found : UserDAO.isExist (asked db message table lookUp).2 <;>
      simp [next, Position.step, found, Position.finishLogin]
  · rw [handle_mismatch _ _ _ _ same]
    by_cases phoneNumber : session.phoneNumber = message.phoneNumber
    · have identifier : session.identifier ≠ message.identifier := fun equal =>
        same ⟨phoneNumber, equal⟩
      simp [next, Position.start, Position.step, phoneNumber, identifier]
    · simp [next, Position.start, Position.step, phoneNumber]

/-- The look-up of a plain number is wrong only when its result was not stored. -/
theorem asked_plain (table : List Bytes) (lookUp : LookUp) (plain : db.Plain message.phoneNumber) :
    (asked db message table lookUp).1 = table ∧
      (UserDAO.isExist (asked db message table lookUp).2 = true ↔
        lookUp = .unstored ∨ lookUp = .called .executed ∧ message.phoneNumber ∈ table) := by
  cases lookUp with
  | called outcome =>
    obtain ⟨unchanged, answer⟩ := plain.isExist table outcome
    refine ⟨unchanged, ?_⟩
    change UserDAO.isExist (db.call table (some (UserDAO.selectUser message.phoneNumber))
      outcome).2 = true ↔ _
    rw [answer]
    simp
  | unstored =>
    refine ⟨(plain.isExist table .executed).1, ?_⟩
    simp [asked, Database.lookUp, UserDAO.isExist, rowsOnError]

/-- The insertion of a plain number succeeds exactly when it is executed. -/
theorem added_plain (plain : db.Plain message.phoneNumber) :
    UserDAO.insert (added db message table lookUp insertion).2 = true ∧
        message.phoneNumber ∈ (added db message table lookUp insertion).1 ↔
      insertion = .executed := by
  have answer := plain.insert (asked db message table lookUp).1
  cases insertion with
  | noHandler => simp [added, Database.call, UserDAO.insert]
  | threw applied => simp [added, Database.call, answer, UserDAO.insert]
  | executed => simp [added, Database.call, answer, UserDAO.insert]

/-- What has to become of the two calls: the number has a row and the look-up, which is
executed, reports it, or the look-up reports none and the insertion is executed. -/
def Served (message : LoginReq) (table : List Bytes) (lookUp : LookUp) (insertion : Outcome) : Prop :=
  message.phoneNumber ∈ table ∧ (lookUp = .called .executed ∨ lookUp = .unstored) ∨
    lookUp ≠ .unstored ∧ insertion = .executed

theorem recorded_plain (plain : db.Plain message.phoneNumber) :
    Recorded db message table lookUp insertion ↔ Served message table lookUp insertion := by
  obtain ⟨unchanged, found⟩ := asked_plain table lookUp plain
  rw [Recorded, unchanged, added_plain plain, Served]
  by_cases unstored : lookUp = .unstored
  · rw [if_pos (found.mpr (.inl unstored))]
    simp [unstored]
  · by_cases present : lookUp = .called .executed ∧ message.phoneNumber ∈ table
    · rw [if_pos (found.mpr (.inr present))]
      simp [present.1, present.2]
    · have missing := found.not.mpr (not_or.mpr ⟨unstored, present⟩)
      rw [if_neg missing]
      tauto

end Handle

/-- The answer to a login is exact exactly when it does not match, or the database
serves it, for a number whose two statements do what they are built for. -/
theorem exact_iff_served (db : Database) (session : Stored) (message : LoginReq)
    (plain : db.Plain message.phoneNumber) (table : List Bytes) (lookUp : LookUp)
    (insertion : Outcome) :
    Exact db session message table lookUp insertion ↔
      (Matches session message → Served message table lookUp insertion) := by
  rw [exact_iff_recorded, recorded_plain plain]

theorem exact_iff_served_unreachable :
    Exact mysql ⟨[49], 100000⟩ ⟨[49], 100000⟩ [[49]] (.called .executed) .noHandler ↔
      (Matches ⟨[49], 100000⟩ ⟨[49], 100000⟩ →
        Served ⟨[49], 100000⟩ [[49]] (.called .executed) .noHandler) :=
  exact_iff_served mysql ⟨[49], 100000⟩ ⟨[49], 100000⟩ (mysql_plain [49]) _ _ _

/-- No connection is left for the insertion: the number has no row, and the login is
answered with success. -/
theorem failed_insertion_succeeds :
    let response := handle mysql ⟨[49], 100000⟩ ⟨[49], 100000⟩ [] (.called .executed) .noHandler
    response.1 = evLoginRes .kSuccess ∧ response.2 = [] ∧
      UserDAO.isExist (asked mysql ⟨[49], 100000⟩ [] (.called .executed)).2 = false ∧
      UserDAO.insert (added mysql ⟨[49], 100000⟩ [] (.called .executed) .noHandler).2 = false :=
  ⟨rfl, rfl, rfl, rfl⟩

end LoginReqEventHandler
end Shbk2
