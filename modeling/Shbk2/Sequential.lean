import Shbk2.Framing
import Shbk2.Connection

/-! The invariant of one connection. At most one of its requests is on its way,
exactly while the session is in the handling state, so the handlers of a session
never overlap: its exchanges are those of a handler that runs alone, and the two
stored fields always come from one and the same request. -/
namespace Shbk2
open MsgProxy

/-- The exchanges, the drawn identifiers and the stored pair of a session whose
requests are handled one at a time, each as a whole. -/
inductive Sequential : List Exchange → List Int32 → Stored → Prop where
  | start : Sequential [] [] ⟨[], 0⟩
  | phone {handled drawn stored} (message : PhoneReq) (identifier : Int32) :
      Sequential handled drawn stored →
      Sequential (handled ++ [⟨.phoneReq message, evPhoneRes identifier .kSuccess⟩])
        (drawn ++ [identifier]) ⟨message.phoneNumber, identifier⟩
  | login {handled drawn stored} (message : LoginReq) : Sequential handled drawn stored →
      Sequential (handled ++ [⟨.loginReq message, evLoginRes
        (if stored = ⟨message.phoneNumber, message.identifier⟩ then .kSuccess else .kInvalidData)⟩])
        drawn stored

/-- A handler part of the way through `request`, after the given exchanges. -/
def Handling (handled : List Exchange) (drawn : List Int32) (stored : Stored) (request : Request) :
    Position → Prop
  | .phoneReq message => request = .phoneReq message ∧ Sequential handled drawn stored
  | .identifierSet message identifier => request = .phoneReq message ∧
      stored.identifier = identifier ∧
      ∃ before old, drawn = before ++ [identifier] ∧ Sequential handled before old
  | .phoneNumberSet identifier => ∃ message before old, request = .phoneReq message ∧
      stored = ⟨message.phoneNumber, identifier⟩ ∧
      drawn = before ++ [identifier] ∧ Sequential handled before old
  | .loginReq message => request = .loginReq message ∧ Sequential handled drawn stored
  | .phoneNumberMatched message => request = .loginReq message ∧
      Sequential handled drawn stored ∧ stored.phoneNumber = message.phoneNumber
  | .matched message | .absent message => request = .loginReq message ∧
      Sequential handled drawn stored ∧ stored = ⟨message.phoneNumber, message.identifier⟩
  | .returned response => Sequential (handled ++ [⟨request, response⟩]) drawn stored

section Login
variable {handled : List Exchange} {drawn : List Int32} {stored : Stored}

theorem Sequential.accepted {message : LoginReq} (sequential : Sequential handled drawn stored)
    (pair : stored = ⟨message.phoneNumber, message.identifier⟩) :
    Sequential (handled ++ [⟨.loginReq message, evLoginRes .kSuccess⟩]) drawn stored := by
  have answered := Sequential.login message sequential
  rwa [if_pos pair] at answered

theorem Sequential.rejected {message : LoginReq} (sequential : Sequential handled drawn stored)
    (differs : stored ≠ ⟨message.phoneNumber, message.identifier⟩) :
    Sequential (handled ++ [⟨.loginReq message, evLoginRes .kInvalidData⟩]) drawn stored := by
  have answered := Sequential.login message sequential
  rwa [if_neg differs] at answered

end Login

section Handling
variable {handled : List Exchange} {drawn : List Int32} {stored : Stored} {request : Request}

theorem handling_start (sequential : Sequential handled drawn stored) :
    Handling handled drawn stored request (.start request) := by
  cases request with
  | phoneReq message => exact ⟨rfl, sequential⟩
  | loginReq message => exact ⟨rfl, sequential⟩

/-- One access of the handler. The decision of a login is made between two reads
of the pair, which nobody else writes. -/
theorem handling_step {position : Position} (rand : Nat) (execution : UserDAO.Execution)
    (handling : Handling handled drawn stored request position) :
    Handling handled (drawn ++ position.draws rand) (position.step stored rand execution).1 request
      (position.step stored rand execution).2 := by
  cases position with
  | phoneReq message =>
    obtain ⟨same, sequential⟩ := handling
    exact ⟨same, rfl, drawn, stored, rfl, sequential⟩
  | identifierSet message identifier =>
    obtain ⟨same, set, before, old, drew, sequential⟩ := handling
    refine ⟨message, before, old, same, ?_, ?_, sequential⟩
    · simp only [Position.step, Stored.setPhoneNumber, set]
    · simpa only [Position.draws, List.append_nil] using drew
  | phoneNumberSet identifier =>
    obtain ⟨message, before, old, rfl, rfl, rfl, sequential⟩ := handling
    simpa only [Position.step, Position.draws, List.append_nil, Handling]
      using Sequential.phone message identifier sequential
  | loginReq message =>
    obtain ⟨rfl, sequential⟩ := handling
    simp only [Position.step, Position.draws, List.append_nil]
    by_cases phone : stored.phoneNumber = message.phoneNumber
    · rw [if_neg (by simpa using phone)]
      exact ⟨rfl, sequential, phone⟩
    · have differs : stored ≠ ⟨message.phoneNumber, message.identifier⟩ := by
        rintro rfl
        exact phone rfl
      rw [if_pos phone]
      exact sequential.rejected differs
  | phoneNumberMatched message =>
    obtain ⟨rfl, sequential, phone⟩ := handling
    simp only [Position.step, Position.draws, List.append_nil]
    by_cases identifier : stored.identifier = message.identifier
    · rw [if_neg (by simpa using identifier)]
      refine ⟨rfl, sequential, ?_⟩
      rw [← phone, ← identifier]
    · have differs : stored ≠ ⟨message.phoneNumber, message.identifier⟩ := by
        rintro rfl
        exact identifier rfl
      rw [if_pos identifier]
      exact sequential.rejected differs
  | matched message =>
    obtain ⟨rfl, sequential, pair⟩ := handling
    simp only [Position.step, Position.draws, List.append_nil]
    split
    · exact sequential.accepted pair
    · exact ⟨rfl, sequential, pair⟩
  | absent message =>
    obtain ⟨rfl, sequential, pair⟩ := handling
    simpa only [Position.step, Position.draws, List.append_nil, Handling, Position.finishLogin]
      using sequential.accepted pair
  | returned response =>
    simpa only [Position.step, Position.draws, List.append_nil] using handling

end Handling

/-- What was handled before the last exchange was handled sequentially, too. -/
theorem Sequential.init {handled : List Exchange} {drawn : List Int32} {stored : Stored}
    {exchange : Exchange} (sequential : Sequential (handled ++ [exchange]) drawn stored) :
    ∃ before old, before <+: drawn ∧ Sequential handled before old := by
  generalize all : handled ++ [exchange] = list at sequential
  cases sequential with
  | start => simp at all
  | phone message identifier before =>
    obtain ⟨rfl, _⟩ := List.append_inj' all rfl
    exact ⟨_, _, List.prefix_append _ _, before⟩
  | login message before =>
    obtain ⟨rfl, _⟩ := List.append_inj' all rfl
    exact ⟨_, _, List.prefix_refl _, before⟩

/-- The exchanges before the request that is handled. -/
theorem Handling.before {handled : List Exchange} {drawn : List Int32} {stored : Stored}
    {request : Request} {position : Position}
    (handling : Handling handled drawn stored request position) :
    ∃ before old, before <+: drawn ∧ Sequential handled before old := by
  cases position with
  | phoneReq | loginReq => exact ⟨_, _, List.prefix_refl _, handling.2⟩
  | identifierSet =>
    obtain ⟨_, _, before, old, rfl, sequential⟩ := handling
    exact ⟨before, old, List.prefix_append _ _, sequential⟩
  | phoneNumberSet =>
    obtain ⟨_, before, old, _, _, rfl, sequential⟩ := handling
    exact ⟨before, old, List.prefix_append _ _, sequential⟩
  | phoneNumberMatched | matched | absent => exact ⟨_, _, List.prefix_refl _, handling.2.1⟩
  | returned => exact Sequential.init handling

namespace Object

/-- The requests pushed, those answered by a handler, the answers given and the
answers written. -/
def requests (o : Object) : List Request := o.history.pushed.map (·.message)
def answered (o : Object) : List Request := o.history.handled.map (·.request)
def responses (o : Object) : List Response := o.history.handled.map (·.response)
def written (o : Object) : List Response := o.session.bufev.output.map (·.message)

@[simp] theorem answered_finish (request : Request) (response : Response) (o : Object) :
    (o.finish request response).answered = o.answered ++ [request] := by
  simp only [answered, finish, List.map_append, List.map_cons, List.map_nil]

@[simp] theorem responses_finish (request : Request) (response : Response) (o : Object) :
    (o.finish request response).responses = o.responses ++ [response] := by
  simp only [responses, finish, List.map_append, List.map_cons, List.map_nil]

@[simp] theorem written_handleResult (event : ResEvent) (o : Object) :
    (NetGate.handleResult event o).written = o.written ++ [event.message] := by
  simp only [written, NetGate.handleResult, List.map_append, List.map_cons, List.map_nil]

/-- Nothing is on its way. -/
def Settled (o : Object) : Prop :=
  o.requests = o.answered ∧ o.written = o.responses ∧
    Sequential o.history.handled o.history.drawn o.session.stored

/-- The one item on its way is the last request pushed, as far as it has come. -/
def Underway (o : Object) : Item → Prop
  | .waiting event => o.requests = o.answered ++ [event.message] ∧ o.written = o.responses ∧
      Sequential o.history.handled o.history.drawn o.session.stored
  | .running event position => o.requests = o.answered ++ [event.message] ∧
      o.written = o.responses ∧
      Handling o.history.handled o.history.drawn o.session.stored event.message position
  | .done event => o.requests = o.answered ∧ o.written ++ [event.message] = o.responses ∧
      Sequential o.history.handled o.history.drawn o.session.stored

/-- Events of this object carry the pointer to it. -/
def Owns (o : Object) : Prop :=
  (∀ event ∈ o.history.pushed, event.session = o.self) ∧
    ∀ event ∈ o.session.bufev.output, event.session = o.self

/-- A session that has moved on without touching what the exchanges depend on. -/
structure SameRecord (o : Object) (t : Session) : Prop where
  stored : t.stored = o.session.stored
  output : t.bufev.output = o.session.bufev.output

section SameRecord
variable {o : Object} {t : Session}

theorem SameRecord.owns (same : SameRecord o t) (owns : o.Owns) :
    ({ o with session := t } : Object).Owns := by
  refine ⟨owns.1, ?_⟩
  rw [same.output]
  exact owns.2

theorem SameRecord.settled (same : SameRecord o t) (settled : o.Settled) :
    ({ o with session := t } : Object).Settled := by
  simpa only [Settled, requests, answered, responses, written, same.stored, same.output]
    using settled

theorem SameRecord.underway {item : Item} (same : SameRecord o t) (underway : o.Underway item) :
    ({ o with session := t } : Object).Underway item := by
  cases item <;>
    simpa only [Underway, requests, answered, responses, written, same.stored, same.output]
      using underway

end SameRecord
end Object

namespace NetGate
variable {pb : Protobuf} {push : ReqEvent → Bool} {o : Object}

theorem rep_noticed {s : Session} (rep : Rep s) : Rep s.noticed := by
  cases rep with
  | idle stat buffer => exact .idle stat buffer
  | head bytes stat buffer short => exact .head bytes stat buffer short
  | body size bytes stat buffer fits => exact .body size bytes stat buffer fits

theorem rep_arrive {s : Session} (rep : Rep s) (bytes : Bytes) : Rep (s.arrive bytes) := by
  cases rep with
  | idle stat buffer => exact .idle stat buffer
  | head bytes stat buffer short => exact .head bytes stat buffer short
  | body size bytes stat buffer fits => exact .body size bytes stat buffer fits

theorem held_arrive (s : Session) (bytes : Bytes) : held (s.arrive bytes) = held s ++ bytes := by
  simp only [held, Session.arrive, List.append_assoc]
  rfl

/-- A call of `pack` right after some bytes arrived. -/
theorem arrive_answers {self : SessionPtr} {s : Session} (rep : Rep s)
    (parsing : s.stat ≠ .handling) (bytes : Bytes) :
    Answers pb self (s.arrive bytes) (held s ++ bytes) (pack pb self (s.arrive bytes))
      (packed (held s ++ bytes)) := by
  rw [← held_arrive]
  exact pack_answers (rep_arrive rep bytes) parsing

/-- The session that the read callback finds in the handling state is deleted. -/
theorem reqCallback_handling (stat : o.session.stat = .handling) :
    reqCallback pb push o = ⟨[.socket, .delete, .socket], none, none⟩ := by
  have thrown : pack pb o.self o.session.noticed = .error (.exception "invalid session state") :=
    if_pos stat
  simp only [reqCallback, thrown]

/-- What the read callback does in the other states, by the parse of the held bytes. -/
inductive Answered (pb : Protobuf) (push : ReqEvent → Bool) (o : Object) : Callback → Prop where
  | waits (t : Session) : packed (held o.session) = .incomplete → Rep t → held t = held o.session →
      (t.stat = .parsingHead ∨ t.stat = .parsingBody) → t.bufev.unread = false →
      o.SameRecord t →
      Answered pb push o ⟨[.socket], some { o with session := t }, none⟩
  | rejects : packed (held o.session) = .unknownIdentifier ∨
      packed (held o.session) = .unknownType →
      Answered pb push o ⟨[.socket, .delete, .socket], none, none⟩
  | accepts (type : EventType) (body rest : Bytes) (parse : Bytes → Int32 → Bool × Request)
      (t : Session) : packed (held o.session) = .frame type body rest →
      pb.parseFromArray type = some parse →
      push ⟨o.self, (parse body (UInt32.ofNat body.length).toInt32).2⟩ = true →
      t.stat = .handling → Rep t → t.bufev.input = rest → t.bufev.unread = false →
      o.SameRecord t →
      Answered pb push o ⟨[.setState, .socket],
        some { o with
          session := t
          history := { o.history with pushed := o.history.pushed ++
            [⟨o.self, (parse body (UInt32.ofNat body.length).toInt32).2⟩] } },
        some ⟨o.self, (parse body (UInt32.ofNat body.length).toInt32).2⟩⟩
  | refuses (type : EventType) (body rest : Bytes) (parse : Bytes → Int32 → Bool × Request) :
      packed (held o.session) = .frame type body rest → pb.parseFromArray type = some parse →
      push ⟨o.self, (parse body (UInt32.ofNat body.length).toInt32).2⟩ = false →
      Answered pb push o ⟨[.socket, .delete, .setState, .socket], none, none⟩

theorem reqCallback_answered (pb : Protobuf) (push : ReqEvent → Bool) (rep : Rep o.session)
    (parsing : o.session.stat ≠ .handling) : Answered pb push o (reqCallback pb push o) := by
  have answers : Answers pb o.self o.session.noticed (held o.session)
      (pack pb o.self o.session.noticed) (packed (held o.session)) :=
    pack_answers (rep_noticed rep) parsing
  cases parsed : packed (held o.session) with
  | incomplete =>
    rw [parsed] at answers
    obtain ⟨t, result, rep, kept, stat, same⟩ := answers
    simp only [reqCallback, result]
    exact .waits t parsed rep kept stat same.unread ⟨same.stored, same.output⟩
  | unknownIdentifier =>
    rw [parsed] at answers
    simp only [reqCallback, show pack pb o.self o.session.noticed = _ from answers]
    exact .rejects (.inl parsed)
  | unknownType =>
    rw [parsed] at answers
    simp only [reqCallback, show pack pb o.self o.session.noticed = _ from answers]
    exact .rejects (.inr parsed)
  | frame type body rest =>
    rw [parsed] at answers
    obtain ⟨parse, t, found, result, stat, buffer, input, same⟩ := answers
    simp only [reqCallback, result]
    cases accepted : push ⟨o.self, (parse body (UInt32.ofNat body.length).toInt32).2⟩ with
    | true =>
      rw [if_pos rfl]
      exact .accepts type body rest parse (t.setState .handling) parsed found accepted rfl
        (.idle (.inr rfl) buffer) input same.unread ⟨same.stored, same.output⟩
    | false =>
      rw [if_neg Bool.false_ne_true]
      exact .refuses type body rest parse parsed found accepted

end NetGate

namespace Conn

inductive Inv : Conn → Prop where
  | closed : Inv .closed
  | idle {o : Object} : Rep o.session → o.session.stat ≠ .handling → o.Owns → o.Settled →
      Inv (.live o [])
  | busy {o : Object} {item : Item} : Rep o.session → o.session.stat = .handling → o.Owns →
      item.session = o.self → o.Underway item → Inv (.live o [item])

theorem inv_init (self : SessionPtr) (eventType : EventType) : Inv (init self eventType) := by
  refine .idle (.idle (.inl rfl) rfl) (by simp [NetGate.listenerCallback, Session.new]) ?_
    ⟨rfl, rfl, .start⟩
  constructor <;> intro event member <;> contradiction

theorem getElem_singleton {item found : Item} {i : Nat} (get : [item][i]? = some found) :
    i = 0 ∧ found = item := by
  cases i with
  | zero => exact ⟨rfl, (Option.some.inj get).symm⟩
  | succ i => simp at get

variable {pb : Protobuf}

theorem inv_arrive {o : Object} {items : List Item} (bytes : Bytes) (inv : Inv (.live o items)) :
    Inv (.live { o with session := o.session.arrive bytes } items) := by
  have same : o.SameRecord (o.session.arrive bytes) := ⟨rfl, rfl⟩
  cases inv with
  | idle rep stat owns settled =>
    exact .idle (NetGate.rep_arrive rep bytes) stat (same.owns owns) (same.settled settled)
  | busy rep stat owns mine underway =>
    exact .busy (NetGate.rep_arrive rep bytes) stat (same.owns owns) mine (same.underway underway)

theorem inv_reqCallback {o : Object} {items : List Item} {push : ReqEvent → Bool}
    (inv : Inv (.live o items)) :
    Inv (afterCallback (NetGate.reqCallback pb push o) items) := by
  cases inv with
  | busy rep stat owns mine underway =>
    rw [NetGate.reqCallback_handling stat]
    exact .closed
  | idle rep stat owns settled =>
    have answered := NetGate.reqCallback_answered pb push rep stat
    generalize NetGate.reqCallback pb push o = callback at answered ⊢
    cases answered with
    | rejects | refuses => exact .closed
    | waits t parsed rep kept stat seen same =>
      have parsing : t.stat ≠ .handling := by rcases stat with h | h <;> simp [h]
      exact .idle rep parsing (same.owns owns) (same.settled settled)
    | accepts type body rest parse t parsed found accepted stat rep input seen same =>
      obtain ⟨requests, written, sequential⟩ := same.settled settled
      refine .busy rep stat ⟨?_, (same.owns owns).2⟩ rfl ⟨?_, written, sequential⟩
      · intro event member
        rcases List.mem_append.mp member with old | new
        · exact owns.1 event old
        · rw [List.mem_singleton.mp new]
      · exact List.map_append.trans (congrArg (· ++ _) requests)

theorem inv_take {o : Object} {event : ReqEvent} (inv : Inv (.live o [.waiting event])) :
    Inv (.live o [.running event (.start event.message)]) := by
  cases inv with
  | busy rep stat owns mine underway =>
    obtain ⟨requests, written, sequential⟩ := underway
    exact .busy rep stat owns mine ⟨requests, written, handling_start sequential⟩

theorem reqBuf_handling {s : Session} (rep : Rep s) (stat : s.stat = .handling) :
    s.reqBuf = .empty := by
  cases rep with
  | idle _ buffer => exact buffer
  | head _ other => simp [stat] at other
  | body _ _ other => simp [stat] at other

theorem inv_work {o : Object} {event : ReqEvent} {position : Position} (rand : Nat)
    (execution : UserDAO.Execution) (inv : Inv (.live o [.running event position])) :
    Inv (.live (o.work rand execution position)
      [.running event (position.step o.session.stored rand execution).2]) := by
  cases inv with
  | busy rep stat owns mine underway =>
    obtain ⟨requests, written, handling⟩ := underway
    have buffer : o.session.reqBuf = .empty := reqBuf_handling rep stat
    exact .busy (.idle (.inr stat) buffer) stat owns mine
      ⟨requests, written, handling_step rand execution handling⟩

theorem inv_finish {o : Object} {event : ReqEvent} {response : Response}
    (inv : Inv (.live o [.running event (.returned response)])) :
    Inv (.live (o.finish event.message response) [.done ⟨event.session, response⟩]) := by
  cases inv with
  | busy rep stat owns mine underway =>
    obtain ⟨requests, written, sequential⟩ := underway
    refine .busy rep stat owns mine ⟨?_, ?_, sequential⟩
    · rw [Object.answered_finish]
      exact requests
    · rw [Object.responses_finish]
      exact congrArg (· ++ _) written

theorem inv_handleResult {o : Object} {event : ResEvent} (inv : Inv (.live o [.done event])) :
    Inv (.live (NetGate.handleResult event o) []) := by
  cases inv with
  | busy rep stat owns mine underway =>
    obtain ⟨requests, written, sequential⟩ := underway
    have buffer : o.session.reqBuf = .empty := reqBuf_handling rep stat
    refine .idle (.idle (.inl rfl) buffer)
      (by simp [NetGate.handleResult, Session.setState]) ⟨owns.1, ?_⟩
      ⟨requests, (Object.written_handleResult event o).trans written, sequential⟩
    intro result member
    rcases List.mem_append.mp member with old | new
    · exact owns.2 result old
    · rw [List.mem_singleton.mp new]
      exact mine

/-- Under the invariant the item an action refers to is the only one. -/
theorem inv_item {o : Object} {items : List Item} {i : Nat} {item : Item}
    (inv : Inv (.live o items)) (get : items[i]? = some item) : i = 0 ∧ items = [item] := by
  cases inv with
  | idle => simp at get
  | busy =>
    obtain ⟨rfl, rfl⟩ := getElem_singleton get
    exact ⟨rfl, rfl⟩

theorem inv_step (c : Conn) (a : Action) (d : Conn) (inv : Inv c) (enabled : step pb c a = some d) :
    Inv d := by
  cases c with
  | closed => contradiction
  | live o items =>
    cases stepped_of_step enabled with
    | arrive bytes => exact inv_arrive bytes inv
    | reqCallback => exact inv_reqCallback inv
    | errCallback => exact .closed
    | take i event get =>
      obtain ⟨rfl, rfl⟩ := inv_item inv get
      exact inv_take inv
    | work i rand execution event position get =>
      obtain ⟨rfl, rfl⟩ := inv_item inv get
      exact inv_work rand execution inv
    | finish i event response get =>
      obtain ⟨rfl, rfl⟩ := inv_item inv get
      exact inv_finish inv
    | handleResult i event get =>
      obtain ⟨rfl, rfl⟩ := inv_item inv get
      exact inv_handleResult inv

theorem Inv.sequential {o : Object} {inFlight : List Item} (inv : Inv (.live o inFlight)) :
    ∃ before old, before <+: o.history.drawn ∧ Sequential o.history.handled before old := by
  cases inv with
  | idle _ _ _ settled => exact ⟨_, _, List.prefix_refl _, settled.2.2⟩
  | @busy _ item _ _ _ _ underway =>
    cases item with
    | waiting | done => exact ⟨_, _, List.prefix_refl _, underway.2.2⟩
    | running => exact Handling.before underway.2.2

/-- How the pushed requests, the answers and the item in flight correspond. -/
theorem Inv.record {o : Object} {inFlight : List Item} (inv : Inv (.live o inFlight)) :
    o.answered <+: o.requests ∧ o.written <+: o.responses ∧ o.Owns ∧
      o.requests.length = o.written.length + inFlight.length ∧
      inFlight.length = if o.session.stat = .handling then 1 else 0 := by
  have paired : o.answered.length = o.responses.length := by
    rw [Object.answered, Object.responses, List.length_map, List.length_map]
  cases inv with
  | idle _ stat owns settled =>
    obtain ⟨requests, written, _⟩ := settled
    rw [requests, written, if_neg stat]
    exact ⟨List.prefix_refl _, List.prefix_refl _, owns, paired, rfl⟩
  | @busy _ item _ stat owns _ underway =>
    rw [if_pos stat]
    cases item with
    | waiting | running =>
      obtain ⟨requests, written, _⟩ := underway
      rw [requests, written, List.length_append, paired]
      exact ⟨List.prefix_append _ _, List.prefix_refl _, owns, rfl, rfl⟩
    | done event =>
      obtain ⟨requests, written, _⟩ := underway
      rw [requests, paired, ← written, List.length_append]
      exact ⟨List.prefix_refl _, List.prefix_append _ _, owns, rfl, rfl⟩

theorem Inv.rep {o : Object} {inFlight : List Item} (inv : Inv (.live o inFlight)) :
    Rep o.session := by
  cases inv with
  | idle rep => exact rep
  | busy rep => exact rep

theorem reachable_inv {self : SessionPtr} {eventType : EventType} {c : Conn}
    (reached : Transition.Reachable (step pb) (init self eventType) c) : Inv c :=
  reached.invariant inv_step (inv_init self eventType)

theorem rep_of_reachable {self : SessionPtr} {eventType : EventType} {o : Object}
    {inFlight : List Item}
    (reached : Transition.Reachable (step pb) (init self eventType) (.live o inFlight)) :
    Rep o.session := (reachable_inv reached).rep

end Conn
end Shbk2
