import Shbk2.ConnPool
import Shbk2.UserDAO

/-! `ConnHandler::Execute` over the client library, up to what `IsExist` and
`Insert` conclude. `Execute` takes a missing result set for a statement that has
none, also when the result of a look-up could not be stored. -/
namespace Shbk2

/-- What the client library answers about a statement: `mysql_real_query`,
`mysql_error`, the rows behind `mysql_store_result` unless it is null, and
`mysql_affected_rows`. -/
structure MysqlAnswer where
  realQuery : Int32
  error : String
  storeResult : Option Nat
  affectedRows : UInt64

/-- The library, by the connection and the text of the statement. -/
abbrev Mysql := Nat → Bytes → MysqlAnswer

/-- `Execute`: the result set, if any, and the affected rows, or what it throws. -/
def ConnHandler.execute (api : Mysql) (connHandler : ConnHandler) (sql : Bytes) :
    Except String (Option Nat × UInt64) :=
  match connHandler.handler with
  | none => .error "handler is invalid..."
  | some mysql =>
    if (api mysql sql).realQuery ≠ 0 then .error (api mysql sql).error
    else .ok ((api mysql sql).storeResult, (api mysql sql).affectedRows)

/-- The common part of `IsExist` and `Insert`, for what `RequestHandler` returned. -/
def UserDAO.execution (api : Mysql) (connHandler : Option ConnHandler) (sql : Bytes) : Execution :=
  match connHandler with
  | none => .noHandler
  | some handler =>
    match handler.execute api sql with
    | .error _ => .threw
    | .ok (_, rows) => .affected rows

/-- What can become of a call: `succeeded` tells the rows found or inserted. -/
inductive CallOutcome where
  | noHandler
  | nullHandler
  | queryFailed
  | storeFailed
  | succeeded (rows : UInt64)
  deriving DecidableEq

/-- `mysql_affected_rows` where it reports an error. -/
def rowsOnError : UInt64 := 0xFFFFFFFFFFFFFFFF

/-- The library shows each outcome of a statement, with a result set or without
one, as its documentation says. -/
inductive Shows (api : Mysql) (sql : Bytes) (resultSet : Bool) :
    Option ConnHandler → CallOutcome → Prop where
  | noHandler : Shows api sql resultSet none .noHandler
  | nullHandler (index : Nat) : Shows api sql resultSet (some ⟨none, index⟩) .nullHandler
  | queryFailed (mysql index : Nat) : (api mysql sql).realQuery ≠ 0 →
      Shows api sql resultSet (some ⟨some mysql, index⟩) .queryFailed
  | storeFailed (mysql index : Nat) : resultSet = true → (api mysql sql).realQuery = 0 →
      (api mysql sql).storeResult = none → (api mysql sql).affectedRows = rowsOnError →
      Shows api sql resultSet (some ⟨some mysql, index⟩) .storeFailed
  | succeeded (mysql index : Nat) (rows : UInt64) : (api mysql sql).realQuery = 0 →
      (api mysql sql).storeResult.isSome = resultSet → (api mysql sql).affectedRows = rows →
      Shows api sql resultSet (some ⟨some mysql, index⟩) (.succeeded rows)

/-- What the callers see of each outcome. -/
def CallOutcome.execution : CallOutcome → UserDAO.Execution
  | .noHandler => .noHandler
  | .nullHandler | .queryFailed => .threw
  | .storeFailed => .affected rowsOnError
  | .succeeded rows => .affected rows

section Calls
variable {api : Mysql} {sql : Bytes} {resultSet : Bool} {connHandler : Option ConnHandler}
  {outcome : CallOutcome}

/-- `Execute` cannot tell a result that was not stored from rows that were counted. -/
theorem execution_of_shows (shown : Shows api sql resultSet connHandler outcome) :
    UserDAO.execution api connHandler sql = outcome.execution := by
  cases shown with
  | noHandler | nullHandler => rfl
  | queryFailed mysql index failed =>
    have thrown : ConnHandler.execute api ⟨some mysql, index⟩ sql =
        .error (api mysql sql).error := if_pos failed
    simp only [UserDAO.execution, thrown, CallOutcome.execution]
  | storeFailed mysql index _ queried _ rows | succeeded mysql index _ queried _ rows =>
    have returned : ConnHandler.execute api ⟨some mysql, index⟩ sql =
        .ok ((api mysql sql).storeResult, (api mysql sql).affectedRows) :=
      if_neg (not_not.mpr queried)
    simp only [UserDAO.execution, returned, CallOutcome.execution, rows]

theorem isExist_execution : UserDAO.isExist outcome.execution = true ↔
    outcome = .storeFailed ∨ ∃ rows, outcome = .succeeded rows ∧ 1 ≤ rows := by
  cases outcome with
  | noHandler | nullHandler | queryFailed | storeFailed =>
    simp [CallOutcome.execution, UserDAO.isExist, rowsOnError]
  | succeeded rows =>
    have positive : 1 ≤ rows ↔ rows ≠ 0 := by
      rw [UInt64.le_iff_toNat_le, ← UInt64.toNat_inj.ne]
      exact Nat.one_le_iff_ne_zero
    simp [CallOutcome.execution, UserDAO.isExist, positive]

theorem insert_execution (inserted : outcome ≠ .storeFailed) :
    UserDAO.insert outcome.execution = true ↔ outcome = .succeeded 1 := by
  cases outcome with
  | noHandler | nullHandler | queryFailed => decide
  | storeFailed => contradiction
  | succeeded rows => simp [CallOutcome.execution, UserDAO.insert]

end Calls

/-- `IsExist` and `Insert` report only what happened, in every outcome of a look-up
and of an insertion, exactly when the result of the look-up was stored. -/
theorem reports_iff_stored (api : Mysql) (phoneNumber : Bytes)
    (asking adding : Option ConnHandler) (found added : CallOutcome)
    (looked : Shows api (UserDAO.selectUser phoneNumber) true asking found)
    (inserted : Shows api (UserDAO.insertUser phoneNumber) false adding added) :
    ((UserDAO.isExist (UserDAO.execution api asking (UserDAO.selectUser phoneNumber)) = true →
        ∃ rows, found = .succeeded rows ∧ 1 ≤ rows) ∧
      (UserDAO.insert (UserDAO.execution api adding (UserDAO.insertUser phoneNumber)) = true →
        added = .succeeded 1)) ↔ found ≠ .storeFailed := by
  have none : added ≠ .storeFailed := by
    rintro rfl
    cases inserted
    contradiction
  rw [execution_of_shows looked, execution_of_shows inserted, isExist_execution,
    insert_execution none]
  constructor
  · rintro ⟨reported, _⟩ rfl
    obtain ⟨rows, other, _⟩ := reported (.inl rfl)
    cases other
  · intro stored
    exact ⟨fun reported => reported.resolve_left stored, id⟩

/-- A library that runs out of memory while it stores the result of a look-up. -/
def outOfMemory : Mysql := fun _ sql =>
  if (ascii "SELECT").isPrefixOf sql then ⟨0, "Out of memory", none, rowsOnError⟩
  else ⟨0, "", none, 1⟩

theorem reports_iff_stored_lost :
    ((UserDAO.isExist (UserDAO.execution outOfMemory (some ⟨some 0, 0⟩) (UserDAO.selectUser [49])) =
          true → ∃ rows, CallOutcome.storeFailed = .succeeded rows ∧ 1 ≤ rows) ∧
      (UserDAO.insert (UserDAO.execution outOfMemory (some ⟨some 0, 0⟩) (UserDAO.insertUser [49])) =
          true → CallOutcome.succeeded 1 = .succeeded 1)) ↔
      CallOutcome.storeFailed ≠ .storeFailed :=
  reports_iff_stored outOfMemory [49] (some ⟨some 0, 0⟩) (some ⟨some 0, 0⟩) .storeFailed
    (.succeeded 1) (.storeFailed 0 0 rfl rfl rfl rfl) (.succeeded 0 0 1 rfl rfl rfl)

theorem lost_result_exists :
    Shows outOfMemory (UserDAO.selectUser [49]) true (some ⟨some 0, 0⟩) .storeFailed ∧
      UserDAO.isExist (UserDAO.execution outOfMemory (some ⟨some 0, 0⟩) (UserDAO.selectUser [49])) =
        true := ⟨.storeFailed 0 0 rfl rfl rfl rfl, rfl⟩

end Shbk2
