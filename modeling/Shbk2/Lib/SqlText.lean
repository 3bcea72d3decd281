import Shbk2.Lib.Transition

/-! The lexical rules of MySQL for the text of a statement, in the default SQL
mode: words, symbols, comments, and strings in quotes, where a doubled quote
stands for one and a backslash starts an escape. Executable comments and
optimizer hints are not read. -/
namespace SqlText

inductive Token where
  | word (bytes : List UInt8)
  | symbol (byte : UInt8)
  | text (value : List UInt8)
  deriving DecidableEq

/-- Where the scanner stands, with what it has read of an unfinished token. -/
inductive Mode where
  | blank
  | word (read : List UInt8)
  | quoted (quote : UInt8) (value : List UInt8)
  | escaped (quote : UInt8) (value : List UInt8)
  | closing (quote : UInt8) (value : List UInt8)
  | dash
  | dashes
  | lineComment
  | slash
  | opening
  | blockComment
  | star
  deriving DecidableEq

def quoteMark : UInt8 := 39
def doubleQuote : UInt8 := 34
def backtick : UInt8 := 96
def backslash : UInt8 := 92
def percent : UInt8 := 37
def underscore : UInt8 := 95
def newline : UInt8 := 10

def isSpace (byte : UInt8) : Bool := (9 ≤ byte && byte ≤ 13) || byte = 32

/-- Letters, digits, the underscore, the dollar sign and bytes beyond ASCII. -/
def isWord (byte : UInt8) : Bool :=
  (48 ≤ byte && byte ≤ 57) || (65 ≤ byte && byte ≤ 90) || (97 ≤ byte && byte ≤ 122) ||
    byte = underscore || byte = 36 || 128 ≤ byte

/-- What an escape stands for, by the byte behind the backslash. The two that
matter to patterns keep their backslash. -/
def unescape (byte : UInt8) : List UInt8 :=
  if byte = 48 then [0]
  else if byte = 98 then [8]
  else if byte = 110 then [10]
  else if byte = 114 then [13]
  else if byte = 116 then [9]
  else if byte = 90 then [26]
  else if byte = percent ∨ byte = underscore then [backslash, byte]
  else [byte]

/-- A backtick quotes an identifier. -/
def closed (quote : UInt8) (value : List UInt8) : Token :=
  if quote = backtick then .word value else .text value

/-- The first byte of what comes next, behind the tokens read. -/
def start (read : List Token) (byte : UInt8) : List Token × Mode :=
  if isSpace byte then (read, .blank)
  else if isWord byte then (read, .word [byte])
  else if byte = quoteMark ∨ byte = doubleQuote ∨ byte = backtick then (read, .quoted byte [])
  else if byte = 35 then (read, .lineComment)
  else if byte = 45 then (read, .dash)
  else if byte = 47 then (read, .slash)
  else (read ++ [.symbol byte], .blank)

def next : List Token × Mode → UInt8 → Option (List Token × Mode)
  | (read, .blank), byte => some (start read byte)
  | (read, .word bytes), byte =>
    some (if isWord byte then (read, .word (bytes ++ [byte])) else start (read ++ [.word bytes]) byte)
  | (read, .quoted quote value), byte =>
    some (read,
      if byte = backslash ∧ quote ≠ backtick then .escaped quote value
      else if byte = quote then .closing quote value
      else .quoted quote (value ++ [byte]))
  | (read, .escaped quote value), byte => some (read, .quoted quote (value ++ unescape byte))
  | (read, .closing quote value), byte =>
    some (if byte = quote then (read, .quoted quote (value ++ [quote]))
      else start (read ++ [closed quote value]) byte)
  | (read, .dash), byte =>
    some (if byte = 45 then (read, .dashes) else start (read ++ [.symbol 45]) byte)
  | (read, .dashes), byte =>
    some (if byte = newline then (read, .blank)
      else if isSpace byte then (read, .lineComment)
      else start (read ++ [.symbol 45, .symbol 45]) byte)
  | (read, .lineComment), byte =>
    some (read, if byte = newline then .blank else .lineComment)
  | (read, .slash), byte =>
    some (if byte = 42 then (read, .opening) else start (read ++ [.symbol 47]) byte)
  | (read, .opening), byte =>
    if byte = 33 ∨ byte = 43 then none
    else some (read, if byte = 42 then .star else .blockComment)
  | (read, .blockComment), byte => some (read, if byte = 42 then .star else .blockComment)
  | (read, .star), byte =>
    some (read, if byte = 47 then .blank else if byte = 42 then .star else .blockComment)

/-- The tokens of a text that ends here, if it may. -/
def finish : List Token × Mode → Option (List Token)
  | (read, .blank) | (read, .dashes) | (read, .lineComment) => some read
  | (read, .word bytes) => some (read ++ [.word bytes])
  | (read, .closing quote value) => some (read ++ [closed quote value])
  | (read, .dash) => some (read ++ [.symbol 45])
  | (read, .slash) => some (read ++ [.symbol 47])
  | (_, .quoted _ _) | (_, .escaped _ _) | (_, .opening) | (_, .blockComment) | (_, .star) => none

def scan (scanner : List Token × Mode) (text : List UInt8) : Option (List Token) :=
  (Transition.run next scanner text).bind finish

def tokens (text : List UInt8) : Option (List Token) := scan ([], .blank) text

/-- The bytes that stand for themselves between quotes: no quote, and a backslash
only before a mark of patterns. -/
def Verbatim : List UInt8 → Prop
  | [] => True
  | byte :: rest => byte ≠ quoteMark ∧
      (byte = backslash → rest.head? = some percent ∨ rest.head? = some underscore) ∧ Verbatim rest

def Verbatim.decide : (bytes : List UInt8) → Decidable (Verbatim bytes)
  | [] => .isTrue trivial
  | byte :: rest =>
    have := Verbatim.decide rest
    inferInstanceAs (Decidable (byte ≠ quoteMark ∧
      (byte = backslash → rest.head? = some percent ∨ rest.head? = some underscore) ∧ Verbatim rest))

instance : DecidablePred Verbatim := Verbatim.decide

section Growth
variable {read later : List Token} {mode mode' : Mode}

theorem start_grows (read : List Token) (byte : UInt8) : read <+: (start read byte).1 := by
  unfold start
  repeat' split
  all_goals first | exact List.prefix_refl read | exact List.prefix_append read _

/-- A token that was read stays read. -/
theorem next_grows {byte : UInt8} (taken : next (read, mode) byte = some (later, mode')) :
    read <+: later := by
  have behind (more : List Token) : read <+: (start (read ++ more) byte).1 :=
    (List.prefix_append read more).trans (start_grows (read ++ more) byte)
  have whole : ∀ after : List Token × Mode, read <+: after.1 → some after = some (later, mode') →
      read <+: later := by
    rintro after grown same
    obtain rfl := Option.some.inj same
    exact grown
  cases mode with
  | blank => exact whole _ (start_grows read byte) taken
  | word | closing | dash | slash =>
    refine whole _ ?_ taken
    split
    · exact List.prefix_refl read
    · exact behind _
  | dashes =>
    refine whole _ ?_ taken
    repeat' split
    · exact List.prefix_refl read
    · exact List.prefix_refl read
    · exact behind _
  | opening =>
    rw [next] at taken
    split at taken
    · contradiction
    · exact whole _ (List.prefix_refl read) taken
  | quoted | escaped | lineComment | blockComment | star =>
    exact whole _ (List.prefix_refl read) taken

theorem finish_grows {read tokens : List Token} {mode : Mode}
    (finished : finish (read, mode) = some tokens) : read <+: tokens := by
  cases mode with
  | blank | dashes | lineComment => exact Option.some.inj finished ▸ List.prefix_refl read
  | word | closing | dash | slash => exact Option.some.inj finished ▸ List.prefix_append read _
  | quoted | escaped | opening | blockComment | star => contradiction

theorem scan_cons (scanner : List Token × Mode) (byte : UInt8) (rest : List UInt8) :
    scan scanner (byte :: rest) = (next scanner byte).bind fun after => scan after rest := by
  simp only [scan, Transition.run_cons, Option.bind_assoc]

theorem scan_grows {text : List UInt8} {tokens : List Token}
    (scanned : scan (read, mode) text = some tokens) : read <+: tokens := by
  induction text generalizing read mode with
  | nil => exact finish_grows scanned
  | cons byte rest ih =>
    rw [scan_cons] at scanned
    obtain ⟨⟨later, mode'⟩, taken, after⟩ := Option.bind_eq_some_iff.mp scanned
    exact (next_grows taken).trans (ih after)

end Growth

section Strings
variable {read tokens : List Token} {value bytes suffix : List UInt8}

/-- Without another quote a string does not end. -/
theorem scan_unterminated (unquoted : quoteMark ∉ suffix) :
    scan (read, .quoted quoteMark value) suffix = none ∧
      scan (read, .escaped quoteMark value) suffix = none := by
  induction suffix generalizing value with
  | nil => exact ⟨rfl, rfl⟩
  | cons byte rest ih =>
    obtain ⟨other, unquoted⟩ := not_or.mp (fun member => unquoted (List.mem_cons.mpr member))
    constructor
    · rw [scan_cons, next, Option.bind_some, if_neg (Ne.symm other)]
      split
      · exact (ih unquoted).2
      · exact (ih unquoted).1
    · rw [scan_cons, next, Option.bind_some]
      exact (ih unquoted).1

theorem unescape_length (byte : UInt8) : (unescape byte).length ≤ 2 := by
  unfold unescape
  repeat' split
  all_goals simp

theorem unescape_mark {byte : UInt8} (two : (unescape byte).length = 2) :
    byte = percent ∨ byte = underscore := by
  unfold unescape at two
  repeat' split at two
  all_goals first | assumption | simp at two

theorem scan_verbatim (verbatim : Verbatim bytes) :
    scan (read, .quoted quoteMark value) (bytes ++ quoteMark :: suffix) =
        scan (read, .closing quoteMark (value ++ bytes)) suffix ∧
      (bytes.head? = some percent ∨ bytes.head? = some underscore →
        scan (read, .escaped quoteMark value) (bytes ++ quoteMark :: suffix) =
          scan (read, .closing quoteMark (value ++ backslash :: bytes)) suffix) := by
  induction bytes generalizing value with
  | nil => exact ⟨by rw [List.append_nil]; rfl, by simp⟩
  | cons byte rest ih =>
    obtain ⟨unquoted, escapes, verbatim⟩ := verbatim
    rw [List.cons_append, scan_cons, scan_cons]
    constructor
    · rw [next, Option.bind_some]
      by_cases escape : byte = backslash
      · rw [if_pos ⟨escape, by decide⟩, (ih verbatim).2 (escapes escape), escape]
      · rw [if_neg fun both => escape both.1, if_neg unquoted, (ih verbatim).1, List.append_assoc]
        rfl
    · intro mark
      have kept : unescape byte = [backslash, byte] := by
        simp only [List.head?_cons, Option.some.injEq] at mark
        rcases mark with rfl | rfl <;> rfl
      rw [next, Option.bind_some, kept, (ih verbatim).1, List.append_assoc]
      rfl

/-- The string ends at a quote that is not doubled. -/
theorem scan_ended {byte : UInt8} {rest : List UInt8} (other : byte ≠ quoteMark)
    (scanned : scan (read, .closing quoteMark value) (byte :: rest) = some tokens) :
    read ++ [.text value] <+: tokens := by
  rw [scan_cons, next, Option.bind_some, if_neg other] at scanned
  exact (start_grows (read ++ [.text value]) byte).trans (scan_grows scanned)

theorem scan_closed (unquoted : quoteMark ∉ suffix)
    (scanned : scan (read, .closing quoteMark value) suffix = some tokens) :
    read ++ [.text value] <+: tokens := by
  cases suffix with
  | nil => exact Option.some.inj scanned ▸ List.prefix_refl _
  | cons byte rest =>
    exact scan_ended (fun same => unquoted (same ▸ List.mem_cons_self)) scanned

/-- The first string that is read goes on from `value` with at most `bound` bytes, and
it has as many only in an exact case. -/
def Reads (read : List Token) (value : List UInt8) (tokens : List Token) (bound : Nat)
    (exact : Prop) : Prop :=
  ∃ more, read ++ [.text (value ++ more)] <+: tokens ∧ more.length ≤ bound ∧
    (more.length = bound → exact)

section Reads
variable {bound : Nat} {exact : Prop}

theorem Reads.mono {weaker : Prop} (reads : Reads read value tokens bound exact)
    (implies : exact → weaker) : Reads read value tokens bound weaker := by
  obtain ⟨more, first, length, all⟩ := reads
  exact ⟨more, first, length, fun same => implies (all same)⟩

theorem Reads.fewer {size : Nat} (reads : Reads read value tokens bound exact)
    (fewer : bound < size) (other : Prop) : Reads read value tokens size other := by
  obtain ⟨more, first, length, _⟩ := reads
  exact ⟨more, first, by omega, fun same => absurd length (by omega)⟩

/-- The bytes that were appended to the value count as read. -/
theorem Reads.behind {part : List UInt8} {size : Nat}
    (reads : Reads read (value ++ part) tokens bound exact) (fits : part.length ≤ size) :
    Reads read value tokens (bound + size) (part.length = size ∧ exact) := by
  obtain ⟨more, first, length, all⟩ := reads
  refine ⟨part ++ more, by rwa [← List.append_assoc], ?_, fun same => ?_⟩
  · rw [List.length_append]
    omega
  · rw [List.length_append] at same
    exact ⟨by omega, all (by omega)⟩

theorem Reads.of_ended (ended : read ++ [.text value] <+: tokens) (bound : Nat) (holds : exact) :
    Reads read value tokens bound exact :=
  ⟨[], by rwa [List.append_nil], Nat.zero_le bound, fun _ => holds⟩

end Reads

/-- What the scanner reads from inside a string, from behind a backslash and from behind
a quote, when `bytes` stand before the last quote. -/
structure FirstString (suffix bytes : List UInt8) : Prop where
  quoted : ∀ read value tokens,
    scan (read, .quoted quoteMark value) (bytes ++ quoteMark :: suffix) = some tokens →
      Reads read value tokens bytes.length (Verbatim bytes)
  escaped : ∀ read value tokens,
    scan (read, .escaped quoteMark value) (bytes ++ quoteMark :: suffix) = some tokens →
      Reads read value tokens (bytes.length + 1)
        (Verbatim bytes ∧ (bytes.head? = some percent ∨ bytes.head? = some underscore))
  closing : ∀ read value tokens,
    scan (read, .closing quoteMark value) (bytes ++ quoteMark :: suffix) = some tokens →
      Reads read value tokens bytes.length True

theorem FirstString.nil (unquoted : quoteMark ∉ suffix) : FirstString suffix [] := by
  have unterminated (read : List Token) (value : List UInt8) (tokens : List Token)
      (scanned : scan (read, .quoted quoteMark value) suffix = some tokens) : False :=
    nomatch (scan_unterminated unquoted).1.symm.trans scanned
  constructor <;> intro read value tokens scanned
  · exact .of_ended (scan_closed unquoted scanned) _ trivial
  · exact (unterminated _ _ _ scanned).elim
  · exact (unterminated _ _ _ scanned).elim

section Cons
variable {byte : UInt8} {rest : List UInt8}

theorem FirstString.quoted_cons (first : FirstString suffix rest)
    (scanned : scan (read, .quoted quoteMark value) (byte :: (rest ++ quoteMark :: suffix)) =
      some tokens) : Reads read value tokens (rest.length + 1) (Verbatim (byte :: rest)) := by
  rw [scan_cons, next, Option.bind_some] at scanned
  split at scanned
  · rename_i escape
    apply (first.escaped _ _ _ scanned).mono
    rintro ⟨verbatim, mark⟩
    exact ⟨by rw [escape.1]; decide, fun _ => mark, verbatim⟩
  split at scanned
  · exact (first.closing _ _ _ scanned).fewer (Nat.lt_succ_self _) _
  · rename_i escape unquoted
    apply ((first.quoted _ _ _ scanned).behind (Nat.le_refl 1)).mono
    rintro ⟨_, verbatim⟩
    exact ⟨unquoted, fun same => absurd ⟨same, by decide⟩ escape, verbatim⟩

/-- Behind a backslash two bytes come of one only if it is a mark of patterns. -/
theorem FirstString.escaped_cons (first : FirstString suffix rest)
    (scanned : scan (read, .escaped quoteMark value) (byte :: (rest ++ quoteMark :: suffix)) =
      some tokens) : Reads read value tokens (rest.length + 2)
        (Verbatim (byte :: rest) ∧ ((byte :: rest).head? = some percent ∨
          (byte :: rest).head? = some underscore)) := by
  rw [scan_cons, next, Option.bind_some] at scanned
  apply ((first.quoted _ _ _ scanned).behind (unescape_length byte)).mono
  rintro ⟨two, verbatim⟩
  rcases unescape_mark two with rfl | rfl
  · exact ⟨⟨by decide, fun escape => absurd escape (by decide), verbatim⟩, .inl rfl⟩
  · exact ⟨⟨by decide, fun escape => absurd escape (by decide), verbatim⟩, .inr rfl⟩

theorem FirstString.closing_cons (first : FirstString suffix rest)
    (scanned : scan (read, .closing quoteMark value) (byte :: (rest ++ quoteMark :: suffix)) =
      some tokens) : Reads read value tokens (rest.length + 1) True := by
  by_cases doubled : byte = quoteMark
  · rw [scan_cons, next, Option.bind_some, if_pos doubled] at scanned
    exact ((first.quoted _ _ _ scanned).behind (Nat.le_refl 1)).mono fun _ => trivial
  · exact .of_ended (scan_ended doubled scanned) _ trivial

end Cons

/-- The first string that is read is no longer than the bytes before the last quote, and
it is as long only if they are verbatim. -/
theorem scan_first (unquoted : quoteMark ∉ suffix) : FirstString suffix bytes := by
  induction bytes with
  | nil => exact .nil unquoted
  | cons byte rest ih =>
    constructor <;> intro read value tokens scanned
    · exact ih.quoted_cons scanned
    · exact ih.escaped_cons scanned
    · exact ih.closing_cons scanned

/-- What stands between the quotes is read as itself exactly when it is verbatim. -/
theorem scan_literal (unquoted : quoteMark ∉ suffix) {after : List Token}
    (ends : scan (read, .closing quoteMark bytes) suffix = some (read ++ .text bytes :: after)) :
    scan (read, .quoted quoteMark []) (bytes ++ quoteMark :: suffix) =
      some (read ++ .text bytes :: after) ↔ Verbatim bytes := by
  constructor
  · intro scanned
    obtain ⟨more, ⟨rest, same⟩, _, all⟩ := (scan_first unquoted).quoted _ _ _ scanned
    rw [List.append_assoc] at same
    obtain ⟨head, _⟩ := List.cons.inj (List.append_cancel_left same)
    have equal : more = bytes := Token.text.inj head
    exact all (congrArg List.length equal)
  · intro verbatim
    rw [(scan_verbatim verbatim).1, List.nil_append]
    exact ends

end Strings
end SqlText
