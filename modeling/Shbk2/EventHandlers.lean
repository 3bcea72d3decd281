import Shbk2.Session
import Shbk2.UserDAO

/-! The two event handlers, cut at their accesses to what other threads can see:
between two positions a worker reads or writes the session at most once and
executes at most one SQL statement. -/
namespace Shbk2

/-- `rand() % (999999 - 100000) + 100000`, for the number `rand` returned. -/
def generateIdentifier (rand : Nat) : Int32 := Int32.ofNat (rand % (999999 - 100000) + 100000)

def SixDigits (identifier : Int32) : Prop :=
  100000 ≤ identifier.toInt ∧ identifier.toInt ≤ 999998

theorem sixDigits_generate (rand : Nat) : SixDigits (generateIdentifier rand) := by
  have bound : rand % (999999 - 100000) < 899999 := Nat.mod_lt _ (by decide)
  have value : (generateIdentifier rand).toInt = (rand % (999999 - 100000) + 100000 : Nat) := by
    rw [generateIdentifier, Int32.toInt_ofNat_of_lt (by omega)]
  rw [SixDigits, value]
  omega

/-- Where a worker stands in `Handle`. -/
inductive Position where
  | phoneReq (message : PhoneReq)
  | identifierSet (message : PhoneReq) (identifier : Int32)
  | phoneNumberSet (identifier : Int32)
  | loginReq (message : LoginReq)
  | phoneNumberMatched (message : LoginReq)
  | matched (message : LoginReq)
  | absent (message : LoginReq)
  | returned (result : Response)
  deriving DecidableEq

namespace Position

/-- The handler that `main` registers for the type of the event is entered. -/
def start : Request → Position
  | .phoneReq message => .phoneReq message
  | .loginReq message => .loginReq message

/-- The common exit of a matched login: the assignment there replaces what the
branches before it stored in `result`. -/
def finishLogin (_result : Option Response) : Response := evLoginRes .kSuccess

/-- The next access: `session` is what the handler finds in the session, `rand`
what `rand()` returns, `execution` the outcome of the statement it executes. -/
def step (session : Stored) (rand : Nat) (execution : UserDAO.Execution) :
    Position → Stored × Position
  | phoneReq message =>
    let identifier := generateIdentifier rand
    (session.setIdentifier identifier, identifierSet message identifier)
  | identifierSet message identifier =>
    (session.setPhoneNumber message.phoneNumber, phoneNumberSet identifier)
  | phoneNumberSet identifier => (session, returned (evPhoneRes identifier .kSuccess))
  | loginReq message =>
    (session, if session.phoneNumber ≠ message.phoneNumber then returned (evLoginRes .kInvalidData)
      else phoneNumberMatched message)
  | phoneNumberMatched message =>
    (session, if session.identifier ≠ message.identifier then returned (evLoginRes .kInvalidData)
      else matched message)
  | matched message =>
    (session, if UserDAO.isExist execution then returned (finishLogin none) else absent message)
  | absent _ =>
    (session, returned (finishLogin
      (if UserDAO.insert execution then none else some (evLoginRes .kProcessFailed))))
  | returned result => (session, returned result)

/-- The statement the next access executes. -/
def statement : Position → Option Bytes
  | matched message => some (UserDAO.selectUser message.phoneNumber)
  | absent message => some (UserDAO.insertUser message.phoneNumber)
  | _ => none

/-- The identifier the next access draws. -/
def draws (rand : Nat) : Position → List Int32
  | phoneReq _ => [generateIdentifier rand]
  | _ => []

theorem sixDigits_draws (rand : Nat) (position : Position) :
    ∀ identifier ∈ position.draws rand, SixDigits identifier := by
  intro identifier member
  cases position with
  | phoneReq =>
    rw [List.mem_singleton.mp member]
    exact sixDigits_generate rand
  | _ => exact absurd member List.not_mem_nil

end Position
end Shbk2
