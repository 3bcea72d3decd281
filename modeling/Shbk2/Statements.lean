import Shbk2.Lib.SqlText
import Shbk2.UserDAO

/-! What the statements built from a phone number mean. The number goes into them
as it came from the client: they ask for what they should exactly when it needs no
quoting. -/
namespace Shbk2
open SqlText

def selectTokens (phoneNumber : Bytes) : List Token :=
  [.word (ascii "SELECT"), .symbol 42, .word (ascii "FROM"), .word (ascii "user"),
    .word (ascii "WHERE"), .word (ascii "user_phonenum"), .symbol 61, .text phoneNumber]

def insertTokens (phoneNumber : Bytes) : List Token :=
  [.word (ascii "INSERT"), .word (ascii "user"), .symbol 40, .word (ascii "user_phonenum"),
    .symbol 41, .word (ascii "VALUES"), .symbol 40, .text phoneNumber, .symbol 41]

theorem tokens_selectUser (phoneNumber : Bytes) :
    tokens (UserDAO.selectUser phoneNumber) = some (selectTokens phoneNumber) ↔
      Verbatim phoneNumber := by
  have text : UserDAO.selectUser phoneNumber =
      ascii "SELECT * FROM user WHERE user_phonenum = '" ++ (phoneNumber ++ quoteMark :: []) :=
    List.append_assoc _ _ _
  have before : tokens (ascii "SELECT * FROM user WHERE user_phonenum = '" ++
      (phoneNumber ++ quoteMark :: [])) =
      scan ((selectTokens phoneNumber).take 7, .quoted quoteMark [])
        (phoneNumber ++ quoteMark :: []) := rfl
  rw [text, before]
  exact scan_literal List.not_mem_nil rfl

theorem tokens_insertUser (phoneNumber : Bytes) :
    tokens (UserDAO.insertUser phoneNumber) = some (insertTokens phoneNumber) ↔
      Verbatim phoneNumber := by
  have text : UserDAO.insertUser phoneNumber =
      ascii "INSERT user (user_phonenum)VALUES ('" ++ (phoneNumber ++ quoteMark :: [41]) :=
    List.append_assoc _ _ _
  have before : tokens (ascii "INSERT user (user_phonenum)VALUES ('" ++
      (phoneNumber ++ quoteMark :: [41])) =
      scan ((insertTokens phoneNumber).take 7, .quoted quoteMark [])
        (phoneNumber ++ quoteMark :: [41]) := rfl
  rw [text, before]
  exact scan_literal (by decide) rfl

/-- Both statements are what they are meant to be, about this number and nothing else. -/
def MeansWhatIsAsked (phoneNumber : Bytes) : Prop :=
  tokens (UserDAO.selectUser phoneNumber) = some (selectTokens phoneNumber) ∧
    tokens (UserDAO.insertUser phoneNumber) = some (insertTokens phoneNumber)

/-- The statements mean what is asked exactly when the number holds no quote, and
backslashes only before the marks of patterns. -/
theorem meansWhatIsAsked_iff (phoneNumber : Bytes) :
    MeansWhatIsAsked phoneNumber ↔ Verbatim phoneNumber := by
  rw [MeansWhatIsAsked, tokens_selectUser, tokens_insertUser, and_self]

/-- One number that is two values of an insertion, for two rows. -/
theorem two_values :
    tokens (UserDAO.insertUser (ascii "1'),('1")) =
      some (insertTokens [49] ++ [.symbol 44, .symbol 40, .text [49], .symbol 41]) ∧
    ¬ MeansWhatIsAsked (ascii "1'),('1") := by
  have read : tokens (UserDAO.insertUser (ascii "1'),('1")) =
      some (insertTokens [49] ++ [.symbol 44, .symbol 40, .text [49], .symbol 41]) := rfl
  refine ⟨read, fun means => ?_⟩
  have same := Option.some.inj (read.symm.trans means.2)
  exact absurd (congrArg List.length same) (by decide)

end Shbk2
