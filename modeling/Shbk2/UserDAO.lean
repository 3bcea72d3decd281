import Shbk2.Events

/-! `UserDAO` as far as the handlers use it: the statements it builds and how it
reads the outcome of their execution. `Instance` initializes the object before
the first use, so its `is_initialized_` tests always pass. -/
namespace Shbk2.UserDAO

/-- What became of a statement: `RequestHandler` timed out, `Execute` threw, or
`mysql_affected_rows` after it was executed. -/
inductive Execution where
  | noHandler
  | threw
  | affected (rows : UInt64)
  deriving DecidableEq

def selectUser (phoneNumber : Bytes) : Bytes :=
  ascii "SELECT * FROM user WHERE user_phonenum = '" ++ phoneNumber ++ ascii "'"

def insertUser (phoneNumber : Bytes) : Bytes :=
  ascii "INSERT user (user_phonenum)" ++ ascii "VALUES ('" ++ phoneNumber ++ ascii "')"

def isExist : Execution → Bool
  | .noHandler | .threw => false
  | .affected rows => rows != 0

def insert : Execution → Bool
  | .noHandler | .threw => false
  | .affected rows => rows == 1

end Shbk2.UserDAO
