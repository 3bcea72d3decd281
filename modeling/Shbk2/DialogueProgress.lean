import Mathlib.Data.List.Induction
import Shbk2.Lib.Simulation
import Shbk2.Dialogue
import Shbk2.WireRuntime

/-! The dialogue comes to its end. As long as nothing fails, each step brings the client
nearer to its second line, and where no step is left it has printed both. -/
namespace Shbk2.Dialogue
open MsgProxy ClientSimulator Proto Transition

/-- The connection holds and the queue has room. -/
def Action.Calm : Action → Prop
  | .clientEvCb events => events &&& bevEventConnected ≠ 0
  | .server (.errCallback _) => False
  | .server (.reqCallback waitingQueueSize) => waitingQueueSize < kDefaultMaxQueueSize
  | _ => True

/-- How far an item is from its response. -/
def work : Item → Nat
  | .waiting _ => 7
  | .running _ position => Conn.remaining position + 2
  | .done _ => 1

/-- The events of the dialogue that have happened: at most seven. -/
def stage (d : Dialogue) : Nat :=
  d.connected.toNat + d.client.printed.length + match d.conn with
    | .live o _ => o.requests.length + o.written.length
    | .closed => 0

/-- What is left to do before the next of them. -/
def outstanding (d : Dialogue) : Nat :=
  2 * d.client.output.length + 2 * d.down.length + d.client.unread.toNat + match d.conn with
    | .live o items => o.session.bufev.unread.toNat + Tally.total work items
    | .closed => 0

def effort (d : Dialogue) : Nat := (7 - d.stage) * 200 + d.outstanding

theorem work_le (item : Item) : work item ≤ 7 := by
  cases item with
  | waiting event => exact Nat.le_refl _
  | done event => exact (by decide : 1 ≤ 7)
  | running event position => cases position <;> simp [work, Conn.remaining]

theorem work_start (event : ReqEvent) : work (.running event (.start event.message)) < 7 := by
  cases message : event.message <;> simp [work, Position.start, Conn.remaining]

theorem work_step {event : ReqEvent} {position : Position} {stored : Stored} {rand : Nat}
    {execution : UserDAO.Execution} (goes_on : ∀ response, position ≠ .returned response) :
    work (.running event (position.step stored rand execution).2) < work (.running event position) := by
  have fewer := Conn.remaining_step position stored rand execution
  have some : Conn.remaining position ≠ 0 := by
    intro none
    obtain ⟨response, same⟩ := Conn.returned_of_remaining none
    exact goes_on response same
  simp only [work]
  omega

theorem total_set_lt {items : List Item} {i : Nat} {old new : Item} (get : items[i]? = some old)
    (less : work new < work old) : Tally.total work (items.set i new) < Tally.total work items := by
  have counted := Tally.total_set work get new
  omega

section Progress
variable [Runtime] [Runtime.Documented]

omit [Runtime.Documented] in
/-- A step of the pool or of `handle_results` brings the item on, or writes its response. -/
theorem internal_works {o p : Object} {items rest : List Item} {a : Conn.Action}
    (internal : a.Internal) (goes_on : ¬ returned (.live o items) a)
    (stepped : Conn.step Runtime.protobuf (.live o items) a = some (.live p rest)) :
    p.requests = o.requests ∧ p.session.bufev.unread = o.session.bufev.unread ∧
      ((p.written = o.written ∧ writes (.live o items) a = [] ∧
        Tally.total work rest < Tally.total work items) ∨
        p.written.length = o.written.length + 1) := by
  generalize same : Conn.live p rest = c at stepped
  cases Conn.stepped_of_step stepped with
  | arrive | reqCallback | errCallback => exact internal.elim
  | take i event get =>
    obtain ⟨rfl, rfl⟩ := Conn.live.inj same
    exact ⟨rfl, rfl, .inl ⟨rfl, rfl, total_set_lt get (work_start event)⟩⟩
  | work i rand execution event position get =>
    obtain ⟨rfl, rfl⟩ := Conn.live.inj same
    refine ⟨rfl, rfl, .inl ⟨rfl, rfl, total_set_lt get (work_step ?_)⟩⟩
    rintro response rfl
    simp [returned, get] at goes_on
  | finish i event response get =>
    obtain ⟨rfl, rfl⟩ := Conn.live.inj same
    refine ⟨rfl, rfl, .inl ⟨rfl, rfl, total_set_lt get ?_⟩⟩
    exact Nat.lt_succ_self 1
  | handleResult i event get =>
    obtain ⟨rfl, rfl⟩ := Conn.live.inj same
    refine ⟨rfl, rfl, .inr ?_⟩
    rw [Object.written_handleResult, List.length_append, List.length_singleton]

/-! Between two events little is left to do. -/

theorem frame_short {connected : Bool} {received : List Response} :
    ∀ f ∈ sent connected received, f.bytes.length ≤ 34 := by
  have phone : phoneFrame.bytes.length ≤ 34 := by
    have size := phoneReq_size
    have length := Request.serialize_length (Nat.lt_of_le_of_lt size (by decide))
    have body : phoneFrame.body.length ≤ 13 := length ▸ size
    rw [phoneFrame.length]
    omega
  have login (identifier : Int32) : (loginFrame identifier).bytes.length ≤ 34 := by
    have size := loginReq_size identifier
    have length := Request.serialize_length (Nat.lt_of_le_of_lt size (by decide))
    have body : (loginFrame identifier).body.length ≤ 24 := length ▸ size
    rw [(loginFrame identifier).length]
    omega
  intro f member
  cases connected with
  | false => exact absurd member List.not_mem_nil
  | true =>
    rcases asked_cases received with same | ⟨message, _, _, same⟩ <;>
      simp only [sent, if_true, same, List.mem_cons, List.not_mem_nil, or_false] at member
    · rw [member]
      exact phone
    · rcases member with rfl | rfl
      · exact phone
      · exact login message.identifier

theorem package_short {received : List Response} {response : Response}
    (script : Script (received ++ [response])) : (packages [response]).length ≤ 53 := by
  rw [packages, List.flatMap_singleton]
  rcases script_next script with ⟨_, identifier, rfl⟩ | ⟨_, _, rfl⟩
  · have size := phoneRes_size identifier .kSuccess
    rw [phoneRes_package, frame_length, Message.serialize_length (by omega)]
    omega
  · have size := loginRes_size .kSuccess
    rw [loginRes_package, frame_length, Message.serialize_length (by omega)]
    omega

omit [Runtime] [Runtime.Documented] in
theorem script_length {responses : List Response} (script : Script responses) :
    responses.length ≤ 2 := by
  cases script <;> simp

section Bounds
variable {d : Dialogue} {received transit : List Response} {o : Object} {items : List Item}

theorem stage_le (follows : Follows d received transit) (live : d.conn = .live o items) :
    d.stage ≤ 7 := by
  have upstream := follows.live o items live
  obtain ⟨todo, _, pushed, _, _⟩ := upstream.todo
  have written := congrArg List.length upstream.written
  have said : (received ++ transit).length ≤ 2 := script_length follows.script
  have told := Bool.toNat_le d.connected
  have frames := sent_few d.connected received
  rw [List.length_append] at said written
  simp only [stage, live, follows.printed, List.length_map]
  omega

theorem outstanding_lt (follows : Follows d received transit) (live : d.conn = .live o items) :
    d.outstanding < 200 := by
  have upstream := follows.live o items live
  obtain ⟨todo, bytes, _, few, suffix⟩ := upstream.todo
  have output : d.client.output.length ≤ 34 := by
    have length := congrArg List.length bytes
    rw [List.length_append] at length
    match todo with
    | [] =>
      have none : (stream ([] : List (Frame Runtime.protobuf))).length = 0 := rfl
      omega
    | [f] =>
      have short := frame_short f (suffix.subset List.mem_cons_self)
      have whole : (stream [f]).length = f.bytes.length := by
        rw [stream_cons]
        exact congrArg List.length (List.append_nil _)
      omega
    | _ :: _ :: _ =>
      simp only [List.length_cons] at few
      omega
  have down : d.down.length ≤ 53 := by
    have length := congrArg List.length follows.heard
    rw [List.length_append] at length
    match transit with
    | [] =>
      have none : (packages []).length = 0 := rfl
      omega
    | [response] =>
      have short := package_short follows.script
      omega
    | _ :: _ :: _ =>
      simp only [List.length_cons] at few
      omega
  have worked : Tally.total work items ≤ 7 := by
    match items with
    | [] => exact Nat.zero_le _
    | [item] => exact work_le item
    | _ :: _ :: _ =>
      simp only [List.length_cons] at few
      omega
  have first := Bool.toNat_le d.client.unread
  have second := Bool.toNat_le o.session.bufev.unread
  simp only [outstanding, live]
  omega

end Bounds

section Effort
variable {d e : Dialogue} {p : Object} {rest : List Item}

/-- A step that is an event of the dialogue, or leaves less to do before the next. -/
theorem effort_lt (inv : e.Inv) (live : e.conn = .live p rest) (on : d.stage ≤ e.stage)
    (less : e.stage = d.stage → e.outstanding < d.outstanding) : e.effort < d.effort := by
  obtain ⟨received, transit, follows⟩ := inv
  have events := stage_le follows live
  have few := outstanding_lt follows live
  simp only [effort]
  by_cases same : e.stage = d.stage
  · have fewer := less same
    omega
  · omega

theorem effort_clientEvCb {events : UInt16} (inv : e.Inv) (live : d.conn = .live p rest)
    (connects : events &&& bevEventConnected ≠ 0)
    (stepped : d.step (.clientEvCb events) = some e) :
    e.conn = .live p rest ∧ e.effort < d.effort := by
  obtain ⟨_, stepped⟩ := Option.ite_none_left_eq_some.mp stepped
  rw [if_neg connects] at stepped
  obtain ⟨before, stepped⟩ := Option.ite_none_left_eq_some.mp stepped
  obtain rfl := Option.some.inj stepped
  have never : d.connected = false := Bool.eq_false_iff.mpr before
  have printed : (ClientSimulator.clientEvCb events d.client).printed = d.client.printed := by
    rw [ClientSimulator.clientEvCb, if_pos connects]
    rfl
  refine ⟨live, effort_lt inv live ?_ ?_⟩ <;>
    simp only [stage, live, printed, never, Bool.toNat_true, Bool.toNat_false] <;> omega

theorem effort_up {bytes : Bytes} (inv : e.Inv) (live : d.conn = .live p rest)
    (stepped : d.step (.up bytes) = some e) :
    e.conn ≠ .closed ∧ e.effort < d.effort := by
  obtain ⟨sends, stepped⟩ := Option.ite_none_left_eq_some.mp stepped
  obtain ⟨conn, arrives, rfl⟩ := Option.map_eq_some_iff.mp stepped
  have part : bytes <+: d.client.output := not_not.mp fun other => sends (.inr other)
  rw [live] at arrives
  cases Conn.stepped_of_step arrives with
  | arrive _ some =>
    have positive := List.length_pos_iff.mpr some
    have fits := part.length_le
    have unread := Bool.toNat_le p.session.bufev.unread
    refine ⟨Conn.noConfusion, effort_lt inv rfl ?_ fun _ => ?_⟩
    · exact Nat.le_of_eq (by simp only [stage, live]; rfl)
    · simp only [outstanding, live, Session.arrive, List.length_drop, Bool.toNat_true]
      omega

theorem effort_down {bytes : Bytes} (inv : e.Inv) (live : d.conn = .live p rest)
    (stepped : d.step (.down bytes) = some e) :
    e.conn = .live p rest ∧ e.effort < d.effort := by
  obtain ⟨delivers, stepped⟩ := Option.ite_none_left_eq_some.mp stepped
  obtain rfl := Option.some.inj stepped
  have part : bytes <+: d.down := not_not.mp fun other => delivers (.inr (.inr other))
  have positive := List.length_pos_iff.mpr fun none => delivers (.inr (.inl none))
  have fits := part.length_le
  have unread := Bool.toNat_le d.client.unread
  refine ⟨live, effort_lt inv live ?_ fun _ => ?_⟩
  · exact Nat.le_of_eq (by simp only [stage])
  · simp only [outstanding, live, List.length_drop, Bool.toNat_true]
    omega

theorem effort_clientRdCb (before : d.Inv) (inv : e.Inv) (whole : Whole d .clientRdCb)
    (live : d.conn = .live p rest) (stepped : d.step .clientRdCb = some e) :
    e.conn = .live p rest ∧ e.effort < d.effort := by
  obtain ⟨received, transit, follows⟩ := before
  obtain ⟨response, client, _, _, rfl, after⟩ := step_clientRdCb follows whole stepped
  have first := congrArg List.length follows.printed
  have second := congrArg List.length after.printed
  simp only [List.map_append, List.length_append, List.length_map, List.length_singleton,
    List.map_singleton] at first second
  refine ⟨live, effort_lt inv live ?_ ?_⟩ <;> simp only [stage, live, second, first] <;> omega

theorem effort_server {a : Conn.Action} (before : d.Inv) (inv : e.Inv) (calm : (Action.server a).Calm)
    (live : d.conn = .live p rest) (stepped : d.step (.server a) = some e) :
    e.conn ≠ .closed ∧ e.effort < d.effort := by
  obtain ⟨received, transit, follows⟩ := before
  obtain ⟨goes_on, conn, inner, rfl⟩ := step_server stepped
  have upstream := follows.live p rest live
  rw [live] at inner goes_on
  by_cases internal : a.Internal
  · obtain ⟨q, left, said, rfl, wrote, _, after⟩ := upstream.internal internal inner
    obtain ⟨requests, unread, works⟩ := internal_works internal goes_on inner
    refine ⟨Conn.noConfusion, effort_lt inv rfl ?_ ?_⟩
    · rcases works with ⟨written, _, _⟩ | written <;> simp only [stage, live, requests, written] <;> omega
    · intro same
      rcases works with ⟨written, quiet, fewer⟩ | written
      · simp only [outstanding, live, quiet, List.append_nil, unread]
        omega
      · simp only [stage, live, requests, written] at same
        omega
  · cases a with
    | take | work | finish | handleResult => exact absurd trivial internal
    | arrive bytes => contradiction
    | errCallback events => exact calm.elim
    | reqCallback waitingQueueSize =>
      obtain ⟨unread, inner⟩ := Option.ite_none_right_eq_some.mp inner
      obtain rfl := Option.some.inj inner
      rcases upstream.reqCallback unread waitingQueueSize with ⟨_, full⟩ | ⟨q, left, lives, seen, more, after⟩
      · exact absurd calm (Nat.not_lt_of_le full)
      · rw [lives] at inv ⊢
        have written := after.written.trans upstream.written.symm
        have requests := more.length_le
        refine ⟨Conn.noConfusion, effort_lt inv rfl ?_ fun same => ?_⟩
        · simp only [stage, live, written]
          omega
        · -- Nothing was pushed, so nothing is on its way after the callback.
          simp only [stage, live, written] at same
          obtain ⟨_, _, _, before, _⟩ := upstream.conn.record
          obtain ⟨_, _, _, record, _⟩ := after.conn.record
          have count : left.length = rest.length := by
            rw [written] at record
            omega
          have idle : rest.length = 0 := by
            obtain ⟨_, _, _, _, busy⟩ := upstream.conn.record
            rwa [if_neg fun stat => Bool.noConfusion (unread.symm.trans (upstream.busy stat))] at busy
          obtain rfl := List.eq_nil_of_length_eq_zero idle
          obtain rfl := List.eq_nil_of_length_eq_zero count
          simp only [outstanding, live, seen, unread, writes, List.append_nil, Bool.toNat_true,
            Bool.toNat_false]
          omega

/-- The session has not been closed, nor the client's connection. -/
structure Open (d : Dialogue) : Prop where
  live : ∃ o items, d.conn = .live o items
  held : d.client.freed = false

omit [Runtime] [Runtime.Documented] in
theorem live_of_not_closed {c : Conn} (there : c ≠ .closed) : ∃ o items, c = .live o items := by
  cases c with
  | closed => exact absurd rfl there
  | live o items => exact ⟨o, items, rfl⟩

theorem calm_step {a : Action} (before : d.Inv) (opened : d.Open) (whole : Whole d a) (calm : a.Calm)
    (stepped : d.step a = some e) : e.Inv ∧ e.Open ∧ e.effort < d.effort := by
  have inv := inv_step d a e before whole stepped
  obtain ⟨⟨p, rest, live⟩, held⟩ := opened
  refine ⟨inv, ?_⟩
  cases a with
  | clientEvCb events =>
    have connects : events &&& bevEventConnected ≠ 0 := calm
    obtain ⟨same, less⟩ := effort_clientEvCb inv live connects stepped
    obtain ⟨_, stepped⟩ := Option.ite_none_left_eq_some.mp stepped
    rw [if_neg connects] at stepped
    obtain ⟨_, stepped⟩ := Option.ite_none_left_eq_some.mp stepped
    obtain rfl := Option.some.inj stepped
    refine ⟨⟨⟨p, rest, live⟩, ?_⟩, less⟩
    rw [ClientSimulator.clientEvCb, if_pos connects]
    exact held
  | up bytes =>
    obtain ⟨there, less⟩ := effort_up inv live stepped
    obtain ⟨_, stepped⟩ := Option.ite_none_left_eq_some.mp stepped
    obtain ⟨conn, _, rfl⟩ := Option.map_eq_some_iff.mp stepped
    exact ⟨⟨live_of_not_closed there, held⟩, less⟩
  | server a =>
    obtain ⟨there, less⟩ := effort_server before inv calm live stepped
    obtain ⟨_, conn, _, rfl⟩ := step_server stepped
    exact ⟨⟨live_of_not_closed there, held⟩, less⟩
  | down bytes =>
    obtain ⟨same, less⟩ := effort_down inv live stepped
    obtain ⟨_, stepped⟩ := Option.ite_none_left_eq_some.mp stepped
    obtain rfl := Option.some.inj stepped
    exact ⟨⟨⟨p, rest, live⟩, held⟩, less⟩
  | clientRdCb =>
    obtain ⟨same, less⟩ := effort_clientRdCb before inv whole live stepped
    obtain ⟨received, transit, follows⟩ := before
    obtain ⟨_, client, _, freed, rfl, _⟩ := step_clientRdCb follows whole stepped
    exact ⟨⟨⟨p, rest, live⟩, freed.trans held⟩, less⟩

end Effort
end Progress

/-! Where no step is left. -/

section Rest
variable [Runtime] {d : Dialogue} {received transit : List Response} {response : Response} {o : Object}
  {items : List Item}

/-- No step can be taken but one that fails or reads part of a response. -/
def AtRest (d : Dialogue) : Prop := Exhausted (guarded step Whole) Action.Calm d

theorem AtRest.connected (rest : d.AtRest) (held : d.client.freed = false) : d.connected = true := by
  by_contra never
  have calm : bevEventConnected &&& bevEventConnected ≠ 0 := by decide
  have none := Exhausted.disabled rest (a := .clientEvCb bevEventConnected) calm trivial
  simp [step, held, never, bevEventConnected] at none

theorem AtRest.output (rest : d.AtRest) (held : d.client.freed = false)
    (live : d.conn = .live o items) : d.client.output = [] := by
  by_contra some
  have none := Exhausted.disabled rest (a := .up d.client.output) trivial trivial
  simp [step, held, live, Conn.step, some] at none

theorem AtRest.unread (rest : d.AtRest) (live : d.conn = .live o items) :
    o.session.bufev.unread = false := by
  by_contra some
  have room : 0 < kDefaultMaxQueueSize := by decide
  have none := Exhausted.disabled rest (a := .server (.reqCallback 0)) room trivial
  simp [step, returned, live, Conn.step, some] at none

theorem AtRest.idle (rest : d.AtRest) (live : d.conn = .live o items) : items = [] := by
  match items with
  | [] => rfl
  | .waiting event :: _ =>
    have none := Exhausted.disabled rest (a := .server (.take 0)) trivial trivial
    simp [step, returned, live, Conn.step] at none
  | .running event position :: _ =>
    by_cases handled : ∃ response, position = .returned response
    · obtain ⟨response, rfl⟩ := handled
      have none := Exhausted.disabled rest (a := .server (.finish 0)) trivial trivial
      simp [step, returned, live, Conn.step] at none
    · have none := Exhausted.disabled rest (a := .server (.work 0 0 .noHandler)) trivial trivial
      cases position with
      | returned response => exact absurd ⟨response, rfl⟩ handled
      | _ => simp [step, returned, live, Conn.step] at none
  | .done event :: _ =>
    have none := Exhausted.disabled rest (a := .server (.handleResult 0)) trivial trivial
    simp [step, returned, live, Conn.step] at none

theorem AtRest.down (rest : d.AtRest) (held : d.client.freed = false) : d.down = [] := by
  by_contra some
  have none := Exhausted.disabled rest (a := .down d.down) trivial trivial
  simp [step, held, some] at none

/-- A client that has been told that it is connected, and has nothing to send or to read. -/
def Quiet (connected : Bool) (client : Client) (down : Bytes) : Prop :=
  connected = true ∧ client.output = [] ∧ down = [] ∧ client.unread = false

theorem quiet_client (quiet : Quiet d.connected d.client d.down) {a : Action} (calm : a.Calm)
    (own : ∀ b, a ≠ .server b) : d.step a = none := by
  obtain ⟨told, output, down, heard⟩ := quiet
  cases a with
  | server b => exact absurd rfl (own b)
  | clientEvCb events =>
    have connects : ¬ events &&& bevEventConnected = 0 := calm
    simp only [step, if_neg connects, told, if_true, ite_self]
  | up bytes =>
    by_cases empty : bytes = []
    · subst empty
      cases conn : d.conn <;> simp [step, conn, Conn.step]
    · refine if_pos (.inr fun part => empty ?_)
      rw [output] at part
      exact List.prefix_nil.mp part
  | down bytes =>
    refine if_pos (.inr ?_)
    by_cases empty : bytes = []
    · exact .inl empty
    · exact .inr fun part => empty (List.prefix_nil.mp (down ▸ part))
  | clientRdCb => exact if_pos (.inr heard)

/-- Where nothing is on its way and nothing was left unread, no step is left. -/
theorem atRest_of_quiet (quiet : Quiet d.connected d.client d.down) (live : d.conn = .live o [])
    (read : o.session.bufev.unread = false) : d.AtRest := by
  intro a calm
  by_contra enabled
  obtain ⟨e, taken⟩ := Option.ne_none_iff_exists'.mp enabled
  obtain ⟨_, stepped⟩ := guarded_eq_some.mp taken
  by_cases own : ∀ b, a ≠ .server b
  · rw [quiet_client quiet calm own] at stepped
    contradiction
  · push Not at own
    obtain ⟨b, rfl⟩ := own
    obtain ⟨_, conn, inner, _⟩ := step_server stepped
    rw [live] at inner
    cases Conn.stepped_of_step inner with
    | arrive => contradiction
    | errCallback => exact calm.elim
    | reqCallback _ unread =>
      rw [read] at unread
      contradiction
    | take | work | finish | handleResult => contradiction

variable [Runtime.Documented]

theorem package_whole (script : Script (received ++ [response])) :
    10 + (declaredSize (package (serializable response))).toNat =
      (package (serializable response)).length := by
  have sized {type : EventType} {b : Bytes} (fits : b.length < 2 ^ 31) :
      10 + (declaredSize (frame type b)).toNat = (frame type b).length := by
    have size : (UInt32.ofNat b.length).toNat = b.length :=
      UInt32.toNat_ofNat_of_lt' (Nat.lt_trans fits (by decide))
    rw [frame_length, frame_header size.symm, header_size, size]
  rcases script_next script with ⟨_, identifier, rfl⟩ | ⟨_, _, rfl⟩
  · have size := phoneRes_size identifier .kSuccess
    rw [phoneRes_package]
    apply sized
    rw [Message.serialize_length (by omega)]
    omega
  · have size := loginRes_size .kSuccess
    rw [loginRes_package]
    apply sized
    rw [Message.serialize_length (by omega)]
    omega

/-- A whole response in the input would be read. -/
theorem AtRest.heard (rest : d.AtRest) (held : d.client.freed = false)
    (follows : Follows d received transit) : transit = [] := by
  have heard := follows.heard
  rw [rest.down held, List.append_nil] at heard
  have script := follows.script
  have few := follows.few
  match transit with
  | [] => rfl
  | [response] =>
    have input : d.client.input = package (serializable response) :=
      heard.trans (List.append_nil _)
    have whole : 10 + (declaredSize d.client.input).toNat ≤ d.client.input.length := by
      rw [input]
      exact Nat.le_of_eq (package_whole script)
    have some : d.client.input ≠ [] := by
      intro none
      rw [none, List.length_nil] at whole
      omega
    obtain ⟨_, client, _, returns, _⟩ := follows.reads whole
    have none := Exhausted.disabled rest (a := .clientRdCb) trivial whole
    simp [step, held, follows.unread some, returns] at none
  | _ :: _ :: _ =>
    simp only [List.length_cons] at few
    omega

theorem printed_all (rest : d.AtRest) (opened : d.Open) (inv : d.Inv) :
    ∃ identifier, SixDigits identifier ∧
      d.client.printed = [.dynamicCode identifier, .result 200 (ascii "ok.")] := by
  obtain ⟨received, transit, follows⟩ := inv
  obtain ⟨⟨o, items, live⟩, held⟩ := opened
  have told := rest.connected held
  have output := rest.output held live
  obtain rfl := rest.idle live
  obtain rfl := rest.heard held follows
  have upstream := follows.live o [] live
  have script := follows.script
  rw [List.append_nil] at script
  obtain ⟨todo, bytes, pushed, _, _⟩ := upstream.todo
  rw [upstream.looked output (rest.unread live), output] at bytes
  obtain rfl : todo = [] := by
    match todo with
    | [] => rfl
    | f :: fs => exact absurd bytes.symm (stream_cons_ne_nil f fs)
  obtain ⟨_, _, _, record, _⟩ := upstream.conn.record
  rw [upstream.written, List.append_nil] at record
  rw [told] at pushed
  have count : received.length = (sent true received).length := by
    simpa only [List.length_nil, Nat.zero_add, Nat.add_zero, record] using pushed
  -- After fewer responses there is a request that was not answered.
  cases script with
  | nothing => simp [sent, asked] at count
  | identified => simp [sent, asked, evPhoneRes] at count
  | @loggedIn identifier sixDigits => exact ⟨identifier, sixDigits, follows.printed⟩

theorem Follows.prints (follows : Follows d received transit) {identifier : Int32}
    (first : (received ++ transit).head? = some (evPhoneRes identifier .kSuccess)) :
    SixDigits identifier ∧
      d.client.printed <+: [.dynamicCode identifier, .result 200 (ascii "ok.")] := by
  have script := follows.script
  have part : received <+: received ++ transit := List.prefix_append _ _
  have same {other : Int32} (head : some (evPhoneRes other .kSuccess) =
      some (evPhoneRes identifier .kSuccess)) : other = identifier :=
    (PhoneRes.mk.inj (Response.phoneRes.inj (Option.some.inj head))).2.2
  rw [follows.printed]
  generalize received ++ transit = responses at script part first
  cases script with
  | nothing => contradiction
  | identified sixDigits =>
    obtain rfl := same first
    exact ⟨sixDigits, (part.map shown).trans (List.prefix_append _ _)⟩
  | loggedIn sixDigits =>
    obtain rfl := same first
    exact ⟨sixDigits, part.map shown⟩

/-- The lines the client prints are the first of two: the identifier it was sent, and that
its login succeeded. -/
theorem printed_script (inv : d.Inv) : ∃ identifier, SixDigits identifier ∧
    d.client.printed <+: [.dynamicCode identifier, .result 200 (ascii "ok.")] := by
  obtain ⟨received, transit, follows⟩ := inv
  have script := follows.script
  generalize said : received ++ transit = responses at script
  cases script with
  | nothing =>
    refine ⟨generateIdentifier 0, sixDigits_generate 0, ?_⟩
    rw [follows.printed, (List.append_eq_nil_iff.mp said).1]
    exact List.nil_prefix
  | identified | loggedIn => exact ⟨_, follows.prints (by rw [said]; rfl)⟩

end Rest

section Run
variable [Runtime]

/-- At some point of the run the session has drawn this identifier and no other, and has it
stored for the client's number. -/
def Drew (self : SessionPtr) (eventType : EventType) (actions : List Action) (identifier : Int32) :
    Prop :=
  ∃ before t o items, before <+: actions ∧ run step (init self eventType) before = some t ∧
    t.conn = .live o items ∧ o.history.drawn = [identifier] ∧
    o.session.stored = ⟨phoneNumber, identifier⟩

theorem Drew.more {self : SessionPtr} {eventType : EventType} {actions more : List Action}
    {identifier : Int32} (drew : Drew self eventType actions identifier) :
    Drew self eventType (actions ++ more) identifier := by
  obtain ⟨before, t, o, items, part, rest⟩ := drew
  exact ⟨before, t, o, items, part.trans (List.prefix_append _ _), rest⟩

variable [Runtime.Documented] {self : SessionPtr} {eventType : EventType} {actions : List Action}
  {s d : Dialogue}

/-- What was said first is the identifier that the session drew. -/
theorem follows_run (ran : run step (init self eventType) actions = some d)
    (whole : Along step Whole (init self eventType) actions) :
    ∃ received transit, Follows d received transit ∧
      ∀ first ∈ (received ++ transit).head?, ∃ identifier,
        first = evPhoneRes identifier .kSuccess ∧ Drew self eventType actions identifier := by
  induction actions using List.reverseRecOn generalizing d with
  | nil =>
    obtain rfl := Option.some.inj ran
    obtain ⟨received, transit, follows⟩ := inv_init self eventType
    refine ⟨received, transit, follows, fun first head => ?_⟩
    rw [follows.silent rfl] at head
    contradiction
  | append_singleton actions a ih =>
    rw [run_concat] at ran
    obtain ⟨t, before, stepped⟩ := Option.bind_eq_some_iff.mp ran
    obtain ⟨received, transit, follows, drew⟩ := ih before ((along_append before).mp whole).1
    obtain ⟨received', transit', after, same | ⟨o, live⟩⟩ :=
      continues_step follows (whole actions a t (List.prefix_refl _) before) stepped
    · refine ⟨received', transit', after, fun first head => ?_⟩
      obtain ⟨identifier, said, drawn⟩ := drew first (same ▸ head)
      exact ⟨identifier, said, drawn.more⟩
    · refine ⟨received', transit', after, fun first head => ?_⟩
      have told : d.connected = true := by
        by_contra never
        rw [after.silent (Bool.eq_false_iff.mpr never)] at head
        contradiction
      obtain ⟨identifier, said, drawn, stored⟩ := ((after.live o [] live).script rfl told).2 first head
      refine ⟨identifier, said, actions ++ [a], d, o, [], List.prefix_refl _, ?_, live, drawn, stored⟩
      rw [run_concat, before]
      exact stepped

/-- Along a calm run whole responses are read and nothing is closed. -/
theorem calm_run (start : s.Inv ∧ s.Open) (ran : run step s actions = some d)
    (whole : Along step Whole s actions) (calm : ∀ a ∈ actions, a.Calm) :
    (d.Inv ∧ d.Open) ∧ actions.length + d.effort ≤ s.effort := by
  have both : Along step (fun d a => Whole d a ∧ a.Calm) s actions :=
    fun before a t part reached => ⟨whole before a t part reached,
      calm a (part.subset (List.mem_append_right before List.mem_cons_self))⟩
  have always : Always step (fun d => d.Inv ∧ d.Open) s actions := by
    refine always_of_along ?_ start both
    intro d a e before guards stepped
    obtain ⟨inv, opened, _⟩ := calm_step before.1 before.2 guards.1 guards.2 stepped
    exact ⟨inv, opened⟩
  have along : Along step (fun d a => (d.Inv ∧ d.Open) ∧ Whole d a) s actions :=
    whole.mono always fun _ _ inv whole => ⟨inv, whole⟩
  have decreases : Decreases (guarded step fun d a => (d.Inv ∧ d.Open) ∧ Whole d a) Action.Calm effort := by
    intro d a e calm taken
    obtain ⟨⟨before, whole⟩, stepped⟩ := guarded_eq_some.mp taken
    exact (calm_step before.1 before.2 whole calm stepped).2.2
  exact ⟨always.final ran, decreases.run calm (run_guarded.mpr ⟨ran, along⟩)⟩

/-- The client's dialogue with the server, whatever comes in pieces and whatever is late, as
long as the client's read callback finds whole responses. What it prints is the identifier
that its session drew and stored, then that its login succeeded, or a part of this. If nothing
fails, the dialogue ends after a bounded number of steps, and where it can go no further the
client has printed both lines. -/
theorem completes (self : SessionPtr) (eventType : EventType) {actions : List Action} {d : Dialogue}
    (ran : run step (init self eventType) actions = some d)
    (whole : Along step Whole (init self eventType) actions) :
    (d.client.printed ≠ [] → ∃ identifier, Drew self eventType actions identifier ∧
        SixDigits identifier ∧
        d.client.printed <+: [.dynamicCode identifier, .result 200 (ascii "ok.")]) ∧
      ((∀ a ∈ actions, a.Calm) → d.conn ≠ .closed ∧ actions.length ≤ 1400 ∧
        (d.AtRest → ∃ identifier, Drew self eventType actions identifier ∧ SixDigits identifier ∧
          d.client.printed = [.dynamicCode identifier, .result 200 (ascii "ok.")])) := by
  obtain ⟨received, transit, follows, drew⟩ := follows_run ran whole
  have identified (some : d.client.printed ≠ []) : ∃ identifier,
      Drew self eventType actions identifier ∧ SixDigits identifier ∧
        d.client.printed <+: [.dynamicCode identifier, .result 200 (ascii "ok.")] := by
    rw [follows.printed, ne_eq, List.map_eq_nil_iff] at some
    obtain ⟨first, rest, rfl⟩ := List.exists_cons_of_ne_nil some
    obtain ⟨identifier, rfl, drawn⟩ := drew first rfl
    exact ⟨identifier, drawn, follows.prints rfl⟩
  refine ⟨identified, fun calm => ?_⟩
  have opened : (init self eventType).Open := ⟨⟨_, _, rfl⟩, rfl⟩
  obtain ⟨⟨inv, after⟩, bound⟩ := calm_run ⟨inv_init self eventType, opened⟩ ran whole calm
  have stage : (init self eventType).stage = 0 := rfl
  have outstanding : (init self eventType).outstanding = 0 := rfl
  rw [effort, effort, stage, outstanding] at bound
  refine ⟨?_, by omega, fun rest => ?_⟩
  · obtain ⟨⟨o, items, live⟩, _⟩ := after
    rw [live]
    exact Conn.noConfusion
  · obtain ⟨other, _, both⟩ := printed_all rest after inv
    obtain ⟨identifier, drawn, sixDigits, part⟩ := identified (by rw [both]; exact List.cons_ne_nil _ _)
    refine ⟨identifier, drawn, sixDigits, part.eq_of_length ?_⟩
    rw [both]
    rfl

end Run

instance (d : Dialogue) (a : Action) : Decidable (Whole d a) :=
  match a with
  | .clientRdCb => inferInstanceAs (Decidable (_ ≤ _))
  | .clientEvCb _ | .up _ | .server _ | .down _ => isTrue trivial

section Witness
open scoped WireFormat

/-- The first request arrives in two parts. -/
def loginRun : List Action :=
  [.clientEvCb bevEventConnected, .up (phoneFrame.bytes.take 7), .server (.reqCallback 0),
    .up (phoneFrame.bytes.drop 7), .server (.reqCallback 0), .server (.take 0),
    .server (.work 0 23456 .noHandler), .server (.work 0 0 .noHandler),
    .server (.work 0 0 .noHandler), .server (.finish 0), .server (.handleResult 0),
    .down (package (serializable (evPhoneRes 123456 .kSuccess))), .clientRdCb,
    .up (loginFrame 123456).bytes, .server (.reqCallback 0), .server (.take 0),
    .server (.work 0 0 .noHandler), .server (.work 0 0 .noHandler),
    .server (.work 0 0 (.affected 1)), .server (.finish 0), .server (.handleResult 0),
    .down (package (serializable (evLoginRes .kSuccess))), .clientRdCb]

theorem completes_login : ∃ d, run step (init ⟨4096, 0⟩ .kUnknown) loginRun = some d ∧ d.AtRest ∧
    ∃ identifier, Drew ⟨4096, 0⟩ .kUnknown loginRun identifier ∧ SixDigits identifier ∧
      d.client.printed = [.dynamicCode identifier, .result 200 (ascii "ok.")] := by
  obtain ⟨d, o, ran, live, quiet, read⟩ :
      ∃ d o, run step (init ⟨4096, 0⟩ .kUnknown) loginRun = some d ∧ d.conn = .live o [] ∧
        Quiet d.connected d.client d.down ∧ o.session.bufev.unread = false :=
    ⟨_, _, rfl, rfl, ⟨rfl, rfl, rfl, rfl⟩, rfl⟩
  have rest : d.AtRest := atRest_of_quiet quiet live read
  have calm : ∀ a ∈ loginRun, a.Calm := by
    simp [loginRun, Action.Calm, bevEventConnected, kDefaultMaxQueueSize]
  have whole : Along step Whole (init ⟨4096, 0⟩ .kUnknown) loginRun :=
    along_of_decide (by decide +kernel)
  exact ⟨d, ran, rest, ((completes ⟨4096, 0⟩ .kUnknown ran whole).2 calm).2.2 rest⟩

end Witness

end Shbk2.Dialogue
