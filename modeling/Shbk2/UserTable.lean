import Mathlib.Data.List.Nodup
import Shbk2.World
import Shbk2.WireFormat

/-! The rows of the user table. A login looks for its phone number in one
statement and inserts it in another, with nothing between them and no constraint
in the table: two rows appear when two logins of one number are both past the
look-up, or when a failed look-up is taken for an absent row. -/
namespace Shbk2

/-- The server does what the two statements built from a phone number are meant
to do: it finds exactly the rows of this number, and adds exactly one. -/
structure Database.Plain (db : Database) (phoneNumber : Bytes) : Prop where
  select : ∀ table, ∃ rows, db.execute table (UserDAO.selectUser phoneNumber) = some (table, rows) ∧
    (rows = 0 ↔ phoneNumber ∉ table)
  insert : ∀ table, db.execute table (UserDAO.insertUser phoneNumber) =
    some (table ++ [phoneNumber], 1)

section Call
variable {db : Database} {phoneNumber : Bytes} (table : List Bytes)

/-- The look-up leaves the table alone, and its answer is wrong only when it fails. -/
theorem Database.Plain.isExist (plain : db.Plain phoneNumber) (outcome : Outcome) :
    (db.call table (some (UserDAO.selectUser phoneNumber)) outcome).1 = table ∧
      UserDAO.isExist (db.call table (some (UserDAO.selectUser phoneNumber)) outcome).2 =
        decide (outcome = .executed ∧ phoneNumber ∈ table) := by
  obtain ⟨rows, answer, found⟩ := plain.select table
  cases outcome with
  | noHandler => exact ⟨rfl, by simp [Database.call, UserDAO.isExist]⟩
  | threw applied => simp [Database.call, answer, UserDAO.isExist]
  | executed =>
    by_cases present : phoneNumber ∈ table
    · have some : rows ≠ 0 := fun zero => found.mp zero present
      simp [Database.call, answer, UserDAO.isExist, present, some]
    · simp [Database.call, answer, UserDAO.isExist, present, found.mpr present]

theorem Database.Plain.insertion (plain : db.Plain phoneNumber) (outcome : Outcome) :
    (db.call table (some (UserDAO.insertUser phoneNumber)) outcome).1 = table ∨
      (db.call table (some (UserDAO.insertUser phoneNumber)) outcome).1 = table ++ [phoneNumber] := by
  have answer := plain.insert table
  cases outcome with
  | noHandler => exact .inl rfl
  | threw applied => cases applied <;> simp [Database.call, answer]
  | executed => simp [Database.call, answer]

end Call

namespace World
open Transition

/-- A worker between the two statements, for a phone number. -/
def Decided (w : World) (worker : Nat) (phoneNumber : Bytes) : Prop :=
  ∃ event message, w.workers[worker]? = some (some ⟨event, .absent message⟩) ∧
    message.phoneNumber = phoneNumber

/-- A worker about to look for a phone number. -/
def Looking (w : World) (worker : Nat) (phoneNumber : Bytes) : Prop :=
  ∃ event message, w.workers[worker]? = some (some ⟨event, .matched message⟩) ∧
    message.phoneNumber = phoneNumber

/-- The statements are built from plain phone numbers. -/
def Plain (db : Database) (w : World) : Action → Prop
  | .work worker _ _ _ => ∀ phoneNumber, w.Looking worker phoneNumber → db.Plain phoneNumber
  | _ => True

/-- A look-up does not fail for a number that has a row, and no other worker is
past its look-up for the same number. -/
def Careful (w : World) : Action → Prop
  | .work worker _ _ outcome => ∀ phoneNumber, w.Looking worker phoneNumber →
      (phoneNumber ∈ w.table → outcome = .executed) ∧ ∀ other, ¬ w.Decided other phoneNumber
  | _ => True

/-- The step executes an `Insert`. -/
def Inserts (w : World) : Action → Prop
  | .work worker _ _ _ => ∃ phoneNumber, w.Decided worker phoneNumber
  | _ => False

/-- No number has two rows, now or when the inserts that are decided are executed. -/
def Unique (pb : Protobuf) (db : Database) (w : World) : Prop :=
  ∀ actions v, Along (step pb db) Inserts w actions → run (step pb db) w actions = some v →
    v.table.Nodup

/-- The numbers of the workers past their look-up have no rows yet, and are distinct. -/
structure Separate (db : Database) (w : World) : Prop where
  nodup : w.table.Nodup
  absent : ∀ worker phoneNumber, w.Decided worker phoneNumber →
    db.Plain phoneNumber ∧ phoneNumber ∉ w.table
  distinct : ∀ worker other phoneNumber, w.Decided worker phoneNumber →
    w.Decided other phoneNumber → worker = other

section Steps
variable {pb : Protobuf} {db : Database} {w v : World}

theorem separate_init (workers : Nat) {table : List Bytes} (nodup : table.Nodup) :
    Separate db (init workers table) := by
  have none (worker : Nat) (phoneNumber : Bytes) : ¬ (init workers table).Decided worker phoneNumber := by
    rintro ⟨event, message, get, _⟩
    have member : some ⟨event, .absent message⟩ ∈ List.replicate workers (none : Option Task) :=
      List.mem_of_getElem? get
    exact nomatch List.eq_of_mem_replicate member
  exact ⟨nodup, fun worker phoneNumber decided => absurd decided (none worker phoneNumber),
    fun worker other phoneNumber decided => absurd decided (none worker phoneNumber)⟩

/-- A step that decides nothing and executes no statement. -/
theorem separate_of_fewer (separate : Separate db w) (table : v.table = w.table)
    (fewer : ∀ worker phoneNumber, v.Decided worker phoneNumber → w.Decided worker phoneNumber) :
    Separate db v := by
  refine ⟨table ▸ separate.nodup, ?_, ?_⟩
  · intro worker phoneNumber decided
    rw [table]
    exact separate.absent worker phoneNumber (fewer worker phoneNumber decided)
  · intro worker other phoneNumber first second
    exact separate.distinct worker other phoneNumber (fewer _ _ first) (fewer _ _ second)

/-- The slot of one worker changes. -/
theorem decided_set {slot : Option Task} {worker other : Nat} {phoneNumber : Bytes}
    (workers : v.workers = w.workers.set worker slot) (decided : v.Decided other phoneNumber) :
    (worker ≠ other ∧ w.Decided other phoneNumber) ∨ (worker = other ∧
      ∃ event message, slot = some ⟨event, .absent message⟩ ∧
        message.phoneNumber = phoneNumber) := by
  obtain ⟨event, message, get, same⟩ := decided
  rw [workers] at get
  by_cases here : worker = other
  · subst here
    have bound := (List.getElem?_eq_some_iff.mp get).1
    rw [List.getElem?_set_self (by simpa using bound)] at get
    exact .inr ⟨rfl, event, message, Option.some.inj get, same⟩
  · rw [List.getElem?_set_ne here] at get
    exact .inl ⟨here, event, message, get, same⟩

theorem fewer_of_slot {slot : Option Task} {worker : Nat}
    (workers : v.workers = w.workers.set worker slot)
    (other : ∀ event message, slot ≠ some ⟨event, .absent message⟩) (k : Nat) (phoneNumber : Bytes)
    (decided : v.Decided k phoneNumber) : w.Decided k phoneNumber := by
  rcases decided_set workers decided with ⟨_, old⟩ | ⟨_, event, message, new, _⟩
  · exact old
  · exact absurd new (other event message)

/-- Only a look-up that finds nothing decides an insert. -/
theorem step_absent {position : Position} {stored : Stored} {rand : Nat}
    {execution : UserDAO.Execution} {message : LoginReq}
    (next : (position.step stored rand execution).2 = .absent message) :
    position = .matched message ∧ UserDAO.isExist execution = false := by
  cases position with
  | matched request =>
    simp only [Position.step] at next
    split at next
    · contradiction
    · rename_i absent
      obtain rfl := Position.absent.inj next
      exact ⟨rfl, by simpa using absent⟩
  | loginReq | phoneNumberMatched =>
    simp only [Position.step] at next
    split at next <;> contradiction
  | _ => simp [Position.step] at next

/-- The look-up of a worker. -/
theorem separate_look {worker rand : Nat} {stored : Stored} {outcome : Outcome} {event : ReqEvent}
    {message : LoginReq} (separate : Separate db w) (plain : db.Plain message.phoneNumber)
    (present : message.phoneNumber ∈ w.table → outcome = .executed)
    (alone : ∀ other, ¬ w.Decided other message.phoneNumber)
    (table : v.table = (db.call w.table (Position.statement (.matched message)) outcome).1)
    (workers : v.workers = w.workers.set worker (some ⟨event, (Position.step stored rand
      (db.call w.table (Position.statement (.matched message)) outcome).2 (.matched message)).2⟩)) :
    Separate db v := by
  obtain ⟨unchanged, answer⟩ := plain.isExist w.table outcome
  have same : v.table = w.table := table.trans unchanged
  have new (other : Nat) (phoneNumber : Bytes) (decided : v.Decided other phoneNumber) :
      (worker ≠ other ∧ w.Decided other phoneNumber) ∨
        (worker = other ∧ phoneNumber = message.phoneNumber ∧ phoneNumber ∉ w.table) := by
    rcases decided_set workers decided with old | ⟨here, _, found, slot, rfl⟩
    · exact .inl old
    · obtain ⟨position, absent⟩ := step_absent (Task.mk.inj (Option.some.inj slot)).2
      obtain rfl := Position.matched.inj position
      have missed := answer.symm.trans absent
      refine .inr ⟨here, rfl, fun member => ?_⟩
      simp [present member, member] at missed
  refine ⟨same ▸ separate.nodup, ?_, ?_⟩
  · intro other phoneNumber decided
    rw [same]
    rcases new other phoneNumber decided with ⟨_, old⟩ | ⟨_, rfl, missing⟩
    · exact separate.absent other phoneNumber old
    · exact ⟨plain, missing⟩
  · intro first second phoneNumber left right
    rcases new first phoneNumber left with ⟨_, left⟩ | ⟨here, mine, _⟩
    · rcases new second phoneNumber right with ⟨_, right⟩ | ⟨_, mine, _⟩
      · exact separate.distinct first second phoneNumber left right
      · exact absurd (mine ▸ left) (alone first)
    · rcases new second phoneNumber right with ⟨_, right⟩ | ⟨there, _, _⟩
      · exact absurd (mine ▸ right) (alone second)
      · exact here.symm.trans there

/-- The insert of a worker. -/
theorem separate_insert {worker rand : Nat} {stored : Stored} {outcome : Outcome} {event : ReqEvent}
    {message : LoginReq} (separate : Separate db w)
    (busy : w.workers[worker]? = some (some ⟨event, .absent message⟩))
    (table : v.table = (db.call w.table (Position.statement (.absent message)) outcome).1)
    (workers : v.workers = w.workers.set worker (some ⟨event, (Position.step stored rand
      (db.call w.table (Position.statement (.absent message)) outcome).2 (.absent message)).2⟩)) :
    Separate db v := by
  have mine : w.Decided worker message.phoneNumber := ⟨event, message, busy, rfl⟩
  obtain ⟨plain, missing⟩ := separate.absent worker _ mine
  have old (other : Nat) (phoneNumber : Bytes) (decided : v.Decided other phoneNumber) :
      worker ≠ other ∧ w.Decided other phoneNumber := by
    rcases decided_set workers decided with old | ⟨_, _, _, slot, _⟩
    · exact old
    · exact nomatch (step_absent (Task.mk.inj (Option.some.inj slot)).2).1
  rcases plain.insertion w.table outcome with unchanged | inserted
  · exact separate_of_fewer separate (table.trans unchanged) fun other phoneNumber decided =>
      (old other phoneNumber decided).2
  · have grown : v.table = w.table ++ [message.phoneNumber] := table.trans inserted
    refine ⟨?_, ?_, ?_⟩
    · rw [grown]
      exact List.nodup_append.mpr ⟨separate.nodup, List.nodup_singleton _, fun phone member other single =>
        fun same => missing (List.mem_singleton.mp single ▸ same ▸ member)⟩
    · intro other phoneNumber decided
      obtain ⟨differ, decided⟩ := old other phoneNumber decided
      obtain ⟨plain, absent⟩ := separate.absent other phoneNumber decided
      refine ⟨plain, fun member => ?_⟩
      rcases List.mem_append.mp (grown ▸ member) with before | new
      · exact absent before
      · rw [List.mem_singleton.mp new] at decided
        exact differ (separate.distinct worker other _ mine decided)
    · intro first second phoneNumber left right
      exact separate.distinct first second phoneNumber (old _ _ left).2 (old _ _ right).2

theorem separate_step (w : World) (a : Action) (v : World) (separate : Separate db w)
    (guards : Plain db w a ∧ Careful w a) (enabled : step pb db w a = some v) : Separate db v := by
  obtain ⟨plain, careful⟩ := guards
  cases stepped_of_step enabled with
  | work worker rand garbage outcome event position busy =>
    cases position with
    | matched message =>
      have looking : w.Looking worker message.phoneNumber := ⟨event, message, busy, rfl⟩
      obtain ⟨present, alone⟩ := careful _ looking
      exact separate_look separate (plain _ looking) present alone rfl rfl
    | absent message => exact separate_insert separate busy rfl rfl
    | _ =>
      refine separate_of_fewer separate rfl (fewer_of_slot rfl ?_)
      intro event message slot
      exact nomatch (step_absent (Task.mk.inj (Option.some.inj slot)).2).1
  | take worker event =>
    refine separate_of_fewer separate rfl (fewer_of_slot rfl ?_)
    intro other message slot
    have start := (Task.mk.inj (Option.some.inj slot)).2
    cases request : event.message <;> simp [request, Position.start] at start
  | finish worker => exact separate_of_fewer separate rfl (fewer_of_slot rfl fun _ _ => nofun)
  | accept | arrive | reqCallback | errCallback | handleResults =>
    exact separate_of_fewer separate rfl fun _ _ decided => decided

theorem careful_of_inserts {a : Action} (inserts : Inserts w a) : Plain db w a ∧ Careful w a := by
  cases a with
  | work worker rand garbage outcome =>
    obtain ⟨_, event, message, busy, _⟩ := inserts
    have none (phoneNumber : Bytes) : ¬ w.Looking worker phoneNumber := by
      rintro ⟨_, _, get, _⟩
      exact nomatch (Task.mk.inj (Option.some.inj (Option.some.inj (busy.symm.trans get)))).2
    exact ⟨fun phone looking => absurd looking (none phone),
      fun phone looking => absurd looking (none phone)⟩
  | _ => exact inserts.elim

theorem unique_of_separate (w : World) (separate : Separate db w) : Unique pb db w := by
  intro actions v inserts ran
  have careful : Along (step pb db) (fun w a => Plain db w a ∧ Careful w a) w actions :=
    fun before a u part reached => careful_of_inserts (inserts before a u part reached)
  exact ((always_of_along separate_step separate careful).final ran).nodup

/-- The insert that a worker has decided on. -/
def insertion (worker : Nat) : Action := .work worker 0 ⟨[], 0⟩ .executed

theorem insertion_step (pb : Protobuf) {worker : Nat} {phoneNumber : Bytes} (plain : db.Plain phoneNumber)
    (decided : w.Decided worker phoneNumber) :
    ∃ u, step pb db w (insertion worker) = some u ∧ u.table = w.table ++ [phoneNumber] ∧
      ∀ other number, worker ≠ other → w.Decided other number → u.Decided other number := by
  obtain ⟨event, message, busy, rfl⟩ := decided
  have insert := plain.insert w.table
  have call : db.call w.table (Position.statement (.absent message)) .executed =
      (w.table ++ [message.phoneNumber], .affected 1) := by
    simp only [Position.statement, Database.call, insert]
  refine ⟨_, by simp only [insertion, step, busy]; rfl, congrArg Prod.fst call, ?_⟩
  rintro other number differ ⟨event', message', get, same⟩
  exact ⟨event', message', (List.getElem?_set_ne differ).trans get, same⟩

theorem Unique.next {a : Action} (unique : Unique pb db w) (inserts : Inserts w a)
    (stepped : step pb db w a = some v) : Unique pb db v := by
  intro actions u later ran
  apply unique (a :: actions) u ((along_cons_some stepped).mpr ⟨inserts, later⟩)
  rw [run_cons, stepped]
  exact ran

/-- A worker that inserts a number with a row makes two. -/
theorem Unique.missing {worker : Nat} {phoneNumber : Bytes} (unique : Unique pb db w)
    (plain : db.Plain phoneNumber) (decided : w.Decided worker phoneNumber) :
    phoneNumber ∉ w.table := by
  intro present
  obtain ⟨u, inserted, grown, _⟩ := insertion_step pb plain decided
  have inserts : Inserts w (insertion worker) := ⟨phoneNumber, decided⟩
  have nodup := (unique.next inserts inserted) [] u along_nil rfl
  rw [grown] at nodup
  exact (List.nodup_append.mp nodup).2.2 _ present _ (List.mem_singleton_self _) rfl

/-- Two workers that insert one number make two rows. -/
theorem Unique.alone {worker other : Nat} {phoneNumber : Bytes} (unique : Unique pb db w)
    (plain : db.Plain phoneNumber) (decided : w.Decided worker phoneNumber)
    (too : w.Decided other phoneNumber) : worker = other := by
  by_contra differ
  obtain ⟨u, inserted, grown, kept⟩ := insertion_step pb plain decided
  have inserts : Inserts w (insertion worker) := ⟨phoneNumber, decided⟩
  have after := unique.next inserts inserted
  apply after.missing plain (kept other phoneNumber differ too)
  rw [grown]
  exact List.mem_append_right _ (List.mem_singleton_self _)

/-- A look-up that leads to no second row is a careful one. -/
theorem careful_look {worker rand : Nat} {stored : Stored} {outcome : Outcome} {event : ReqEvent}
    {message : LoginReq} (separate : Separate db w) (plain : db.Plain message.phoneNumber)
    (busy : w.workers[worker]? = some (some ⟨event, .matched message⟩))
    (table : v.table = (db.call w.table (Position.statement (.matched message)) outcome).1)
    (workers : v.workers = w.workers.set worker (some ⟨event, (Position.step stored rand
      (db.call w.table (Position.statement (.matched message)) outcome).2 (.matched message)).2⟩))
    (unique : Unique pb db v) :
    (message.phoneNumber ∈ w.table → outcome = .executed) ∧
      ∀ other, ¬ w.Decided other message.phoneNumber := by
  obtain ⟨unchanged, answer⟩ := plain.isExist w.table outcome
  have same : v.table = w.table := table.trans unchanged
  have bound := (List.getElem?_eq_some_iff.mp busy).1
  -- A look-up that finds nothing makes this worker insert.
  have decides (missed : ¬ (outcome = .executed ∧ message.phoneNumber ∈ w.table)) :
      v.Decided worker message.phoneNumber := by
    have absent := answer.trans (decide_eq_false missed)
    refine ⟨event, message, ?_, rfl⟩
    rw [workers, List.getElem?_set_self bound]
    simp only [Position.step, Position.statement, absent, Bool.false_eq_true, if_false]
  constructor
  · intro present
    by_contra failed
    have decided := decides fun both => failed both.1
    exact unique.missing plain decided (same ▸ present)
  · intro other decided
    obtain ⟨_, missing⟩ := separate.absent other _ decided
    obtain ⟨event', message', get, equal⟩ := decided
    have differ : worker ≠ other := by
      rintro rfl
      exact nomatch (Task.mk.inj (Option.some.inj (Option.some.inj (busy.symm.trans get)))).2
    have still : v.Decided other message.phoneNumber := by
      refine ⟨event', message', ?_, equal⟩
      rw [workers, List.getElem?_set_ne differ]
      exact get
    exact differ (unique.alone plain (decides fun both => missing both.2) still)

/-- A careless look-up leads to two rows. -/
theorem careful_of_unique (w : World) (a : Action) (v : World) (separate : Separate db w)
    (plain : Plain db w a) (enabled : step pb db w a = some v) (unique : Unique pb db v) :
    Careful w a := by
  cases stepped_of_step enabled with
  | work worker rand garbage outcome event position busy =>
    rintro phoneNumber ⟨event', message, looking, rfl⟩
    have number := plain _ ⟨event', message, looking, rfl⟩
    obtain ⟨rfl, rfl⟩ := Task.mk.inj (Option.some.inj (Option.some.inj (busy.symm.trans looking)))
    exact careful_look separate number busy rfl rfl unique
  | _ => trivial

end Steps

/-- With plain phone numbers, no number has two rows in any state of a run, or when
the inserts decided there are executed, exactly when all its look-ups are careful. -/
theorem unique_iff_careful (pb : Protobuf) (db : Database) (workers : Nat) (table : List Bytes)
    (nodup : table.Nodup) (actions : List Action) (w : World)
    (ran : run (step pb db) (init workers table) actions = some w)
    (plain : Along (step pb db) (Plain db) (init workers table) actions) :
    Always (step pb db) (Unique pb db) (init workers table) actions ↔
      Along (step pb db) Careful (init workers table) actions :=
  always_iff_along_under separate_step unique_of_separate careful_of_unique
    (separate_init workers nodup) plain ran

end World

/-- What stands in a statement between two texts. -/
def between (before after sql : Bytes) : Option Bytes :=
  let middle := (sql.drop before.length).take (sql.length - (before.length + after.length))
  if sql = before ++ middle ++ after then some middle else none

theorem between_append (before middle after : Bytes) :
    between before after (before ++ middle ++ after) = some middle := by
  have length : (before ++ middle ++ after).length - (before.length + after.length) =
      middle.length := by
    simp only [List.length_append]
    omega
  have found : ((before ++ middle ++ after).drop before.length).take middle.length = middle := by
    rw [List.append_assoc, List.drop_left, List.take_left]
  simp only [between, length, found, if_true]

theorem between_none {before sql : Bytes} (after : Bytes) (other : ¬ before <+: sql) :
    between before after sql = none := by
  refine if_neg fun same => other ?_
  rw [same, List.append_assoc]
  exact List.prefix_append _ _

/-- A server for the two statements, on phone numbers that need no quoting. -/
def mysql : Database where
  execute table sql :=
    match between (ascii "SELECT * FROM user WHERE user_phonenum = '") (ascii "'") sql with
    | some phoneNumber => some (table, UInt64.ofNat (min (table.count phoneNumber) (2 ^ 63)))
    | none =>
      match between (ascii "INSERT user (user_phonenum)VALUES ('") (ascii "')") sql with
      | some phoneNumber => some (table ++ [phoneNumber], 1)
      | none => none

theorem rows_eq_zero (table : List Bytes) (phoneNumber : Bytes) :
    UInt64.ofNat (min (table.count phoneNumber) (2 ^ 63)) = 0 ↔ phoneNumber ∉ table := by
  have small : min (table.count phoneNumber) (2 ^ 63) < UInt64.size := by
    simp only [UInt64.size]
    omega
  rw [← UInt64.toNat_inj, UInt64.toNat_ofNat_of_lt' small, ← List.count_eq_zero]
  change min _ _ = 0 ↔ _
  omega

theorem mysql_plain (phoneNumber : Bytes) : mysql.Plain phoneNumber := by
  constructor
  · intro table
    have asked : between (ascii "SELECT * FROM user WHERE user_phonenum = '") (ascii "'")
        (UserDAO.selectUser phoneNumber) = some phoneNumber := between_append _ phoneNumber _
    exact ⟨_, by simp only [mysql, asked], rows_eq_zero table phoneNumber⟩
  · intro table
    have other : between (ascii "SELECT * FROM user WHERE user_phonenum = '") (ascii "'")
        (UserDAO.insertUser phoneNumber) = none := by
      apply between_none
      rintro ⟨rest, same⟩
      have first : some (83 : UInt8) = some 73 := congrArg List.head? same
      exact absurd first (by decide)
    have asked : between (ascii "INSERT user (user_phonenum)VALUES ('") (ascii "')")
        (UserDAO.insertUser phoneNumber) = some phoneNumber := between_append _ phoneNumber _
    simp only [mysql, other, asked]

namespace World
open Transition

/-- Two sessions log in with one phone number, and both look for it before either
inserts it. -/
def racingRun : List Action :=
  [.accept 4096 .kUnknown, .accept 8192 .kUnknown,
    .arrive 4096 (ascii "SHBK" ++ [1, 0, 3, 0, 0, 0, 10, 1, 49]), .reqCallback 4096, .take 0,
    .arrive 8192 (ascii "SHBK" ++ [1, 0, 3, 0, 0, 0, 10, 1, 49]), .reqCallback 8192, .take 1,
    .work 0 0 ⟨[], 0⟩ .executed, .work 0 0 ⟨[], 0⟩ .executed, .work 0 0 ⟨[], 0⟩ .executed,
    .work 1 0 ⟨[], 0⟩ .executed, .work 1 0 ⟨[], 0⟩ .executed, .work 1 0 ⟨[], 0⟩ .executed,
    .finish 0, .finish 1, .handleResults,
    .arrive 4096 (ascii "SHBK" ++ [3, 0, 7, 0, 0, 0, 10, 1, 49, 16, 160, 141, 6]),
    .reqCallback 4096, .take 0,
    .arrive 8192 (ascii "SHBK" ++ [3, 0, 7, 0, 0, 0, 10, 1, 49, 16, 160, 141, 6]),
    .reqCallback 8192, .take 1,
    .work 0 0 ⟨[], 0⟩ .executed, .work 0 0 ⟨[], 0⟩ .executed, .work 0 0 ⟨[], 0⟩ .executed,
    .work 1 0 ⟨[], 0⟩ .executed, .work 1 0 ⟨[], 0⟩ .executed, .work 1 0 ⟨[], 0⟩ .executed,
    .work 0 0 ⟨[], 0⟩ .executed, .work 1 0 ⟨[], 0⟩ .executed]

theorem plain_mysql (actions : List Action) (w : World) :
    Along (step WireFormat.protobuf mysql) (Plain mysql) w actions := by
  intro before a t _ _
  cases a with
  | work worker rand garbage outcome => exact fun phoneNumber _ => mysql_plain phoneNumber
  | _ => trivial

theorem unique_iff_careful_racing :
    ∃ w, run (step WireFormat.protobuf mysql) (init 2 []) racingRun = some w ∧
      (Always (step WireFormat.protobuf mysql) (Unique WireFormat.protobuf mysql) (init 2 [])
          racingRun ↔
        Along (step WireFormat.protobuf mysql) Careful (init 2 []) racingRun) :=
  ⟨_, rfl, unique_iff_careful WireFormat.protobuf mysql 2 [] List.nodup_nil racingRun _ rfl
    (plain_mysql racingRun (init 2 []))⟩

theorem two_rows :
    ∃ w, run (step WireFormat.protobuf mysql) (init 2 []) racingRun = some w ∧
      w.table = [[49], [49]] ∧ ¬ w.table.Nodup := by
  obtain ⟨w, ran, table⟩ : ∃ w, run (step WireFormat.protobuf mysql) (init 2 []) racingRun = some w ∧
      w.table = [[49], [49]] := ⟨_, rfl, rfl⟩
  refine ⟨w, ran, table, ?_⟩
  rw [table]
  decide

end World
end Shbk2
