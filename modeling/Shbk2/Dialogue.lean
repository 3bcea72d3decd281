import Shbk2.ClientSimulator
import Shbk2.Segmentation

/-! The client simulator and its session on the server, with a byte stream in either
direction between them. What arrives may be any part of what was sent, and every callback
may run late. As the client does not wait for the end of a response, its own read callback
is looked at where it finds whole ones. -/
namespace Shbk2
open MsgProxy ClientSimulator Proto

/-- `connected`: the client was told so; `down`: what was written for it and has not arrived. -/
structure Dialogue where
  client : Client
  connected : Bool
  conn : Conn
  down : Bytes

namespace Dialogue

inductive Action where
  | clientEvCb (events : UInt16)
  | up (bytes : Bytes)
  | server (a : Conn.Action)
  | down (bytes : Bytes)
  | clientRdCb

def init (self : SessionPtr) (eventType : EventType) : Dialogue :=
  ⟨.new, false, .init self eventType, []⟩

section Step
variable [Runtime]

/-- What an action of the server writes to the connection. -/
def writes : Conn → Conn.Action → Bytes
  | .live _ items, .handleResult i =>
    match items[i]? with
    | some (.done event) => package (serializable event.message)
    | _ => []
  | _, _ => []

/-- A handler that has returned makes no further access. -/
def returned : Conn → Conn.Action → Bool
  | .live _ items, .work i _ _ =>
    match items[i]? with
    | some (.running _ (.returned _)) => true
    | _ => false
  | _, _ => false

def step (d : Dialogue) : Action → Option Dialogue
  | .clientEvCb events =>
    if d.client.freed then none
    else if events &&& bevEventConnected = 0 then
      some { d with client := ClientSimulator.clientEvCb events d.client }
    else if d.connected then none
    else some { d with client := ClientSimulator.clientEvCb events d.client, connected := true }
  | .up bytes =>
    if d.client.freed ∨ ¬ bytes <+: d.client.output then none
    else (d.conn.step Runtime.protobuf (.arrive bytes)).map fun conn =>
      { d with conn := conn, client := { d.client with output := d.client.output.drop bytes.length } }
  | .server (.arrive _) => none
  | .server a =>
    if returned d.conn a then none
    else (d.conn.step Runtime.protobuf a).map fun conn =>
      { d with conn := conn, down := d.down ++ writes d.conn a }
  | .down bytes =>
    if d.client.freed ∨ bytes = [] ∨ ¬ bytes <+: d.down then none
    else some { d with
      down := d.down.drop bytes.length
      client := { d.client with input := d.client.input ++ bytes, unread := true } }
  | .clientRdCb =>
    if d.client.freed ∨ d.client.unread = false then none
    else
      match ClientSimulator.clientRdCb d.client with
      | .ok client => some { d with client := client }
      -- Nothing catches the exception: the client ends.
      | .error _ => some { d with client := { d.client with freed := true } }

end Step

/-- The read callback of the client finds a whole response. -/
def Whole (d : Dialogue) : Action → Prop
  | .clientRdCb => 10 + (declaredSize d.client.input).toNat ≤ d.client.input.length
  | _ => True

/-! What is said, in order. -/

inductive Script : List Response → Prop where
  | nothing : Script []
  | identified {identifier : Int32} : SixDigits identifier →
      Script [evPhoneRes identifier .kSuccess]
  | loggedIn {identifier : Int32} : SixDigits identifier →
      Script [evPhoneRes identifier .kSuccess, evLoginRes .kSuccess]

section Frames
variable [Runtime] [Runtime.Documented]

theorem loginReq_size (identifier : Int32) :
    Request.byteSizeLong (.loginReq ⟨phoneNumber, identifier⟩) ≤ 24 := by
  have first := text_size phoneNumber (by decide)
  have length : phoneNumber.length = 11 := by decide
  have second := int32_size identifier
  have counted : Request.byteSizeLong (.loginReq ⟨phoneNumber, identifier⟩) =
    (Content.string phoneNumber).size + ((Content.int32 identifier).size + 0) := rfl
  omega

theorem phoneReq_size : Request.byteSizeLong (.phoneReq ⟨phoneNumber⟩) ≤ 13 := by
  have first := text_size phoneNumber (by decide)
  have length : phoneNumber.length = 11 := by decide
  have counted : Request.byteSizeLong (.phoneReq ⟨phoneNumber⟩) =
    (Content.string phoneNumber).size + 0 := rfl
  omega

/-- The frame that the client makes of a request. -/
def requestFrame (request : Request) (fits : Request.byteSizeLong request < 2 ^ 31) :
    Frame Runtime.protobuf where
  message := request
  body := Request.serialize request
  nonempty := List.ne_nil_of_length_pos
    (Request.serialize_length fits ▸ Request.positive request)
  bounded := Request.serialize_length fits ▸ fits
  decodes := parseFromArray_request fits

def phoneFrame : Frame Runtime.protobuf :=
  requestFrame (.phoneReq ⟨phoneNumber⟩) (Nat.lt_of_le_of_lt phoneReq_size (by decide))

def loginFrame (identifier : Int32) : Frame Runtime.protobuf :=
  requestFrame (.loginReq ⟨phoneNumber, identifier⟩)
    (Nat.lt_of_le_of_lt (loginReq_size identifier) (by decide))

/-- The frames the client has sent once it has read the given responses. -/
def asked : List Response → List (Frame Runtime.protobuf)
  | .phoneRes message :: _ => [phoneFrame, loginFrame message.identifier]
  | _ => [phoneFrame]

end Frames

theorem sequential_last {handled : List Exchange} {exchange : Exchange} {drawn : List Int32}
    {stored : Stored} (sequential : Sequential (handled ++ [exchange]) drawn stored) :
    (∃ message identifier before old, exchange = ⟨.phoneReq message, evPhoneRes identifier .kSuccess⟩ ∧
        stored = ⟨message.phoneNumber, identifier⟩ ∧ drawn = before ++ [identifier] ∧
        Sequential handled before old) ∨
      ∃ message, exchange = ⟨.loginReq message, evLoginRes (if stored =
          ⟨message.phoneNumber, message.identifier⟩ then .kSuccess else .kInvalidData)⟩ ∧
        Sequential handled drawn stored := by
  generalize all : handled ++ [exchange] = list at sequential
  cases sequential with
  | start => simp at all
  | phone message identifier before =>
    obtain ⟨rfl, same⟩ := List.append_inj' all rfl
    exact .inl ⟨message, identifier, _, _, List.singleton_inj.mp same, rfl, rfl, before⟩
  | login message before =>
    obtain ⟨rfl, same⟩ := List.append_inj' all rfl
    exact .inr ⟨message, List.singleton_inj.mp same, before⟩

theorem drawn_nil {handled : List Exchange} {drawn : List Int32} {stored : Stored}
    (sequential : Sequential handled drawn stored) (none : handled = []) : drawn = [] := by
  cases sequential with
  | start => rfl
  | phone | login => simp at none

section Script
variable [Runtime] [Runtime.Documented]

/-- The second frame is sent in answer to the first response. -/
theorem asked_cases (received : List Response) : asked received = [phoneFrame] ∨
    ∃ message rest, received = .phoneRes message :: rest ∧
      asked received = [phoneFrame, loginFrame message.identifier] := by
  unfold asked
  split
  · exact .inr ⟨_, _, rfl, rfl⟩
  · exact .inl rfl

/-- What a session answers first is the identifier it drew, which it still has stored. -/
def Identifies (responses : List Response) (drawn : List Int32) (stored : Stored) : Prop :=
  ∀ first ∈ responses.head?, ∃ identifier, first = evPhoneRes identifier .kSuccess ∧
    drawn = [identifier] ∧ stored = ⟨phoneNumber, identifier⟩

/-- A session that was asked nothing else has answered by the script. -/
theorem script_of_sequential {handled : List Exchange} {drawn : List Int32} {stored : Stored}
    (received : List Response) (sequential : Sequential handled drawn stored)
    (sixDigits : ∀ identifier ∈ drawn, SixDigits identifier)
    (asks : handled.map (·.request) <+: (asked received).map (·.message))
    (hears : received <+: handled.map (·.response)) :
    Script (handled.map (·.response)) ∧ Identifies (handled.map (·.response)) drawn stored := by
  -- The first exchange is the request for an identifier.
  have first {exchange : Exchange} {drawn : List Int32} {stored : Stored}
      (request : exchange.request = .phoneReq ⟨phoneNumber⟩)
      (sequential : Sequential ([] ++ [exchange]) drawn stored) :
      ∃ identifier, drawn = [identifier] ∧ exchange.response = evPhoneRes identifier .kSuccess ∧
        stored = ⟨phoneNumber, identifier⟩ := by
    rcases sequential_last sequential with ⟨_, identifier, _, _, rfl, same, rfl, new⟩ | ⟨_, rfl, _⟩
    · obtain rfl := Request.phoneReq.inj request
      obtain rfl := drawn_nil new rfl
      exact ⟨identifier, rfl, rfl, same⟩
    · contradiction
  match handled with
  | [] => exact ⟨.nothing, fun first none => absurd none (Option.not_mem_none first)⟩
  | [exchange] =>
    have request : exchange.request = .phoneReq ⟨phoneNumber⟩ := by
      rcases asked_cases received with same | ⟨_, _, _, same⟩ <;>
        exact (List.cons_prefix_cons.mp (same ▸ asks)).1
    obtain ⟨identifier, rfl, response, rfl⟩ := first request sequential
    rw [List.map_singleton, response]
    refine ⟨.identified (sixDigits identifier List.mem_cons_self), fun said head => ?_⟩
    exact ⟨identifier, (Option.some.inj head).symm, rfl, rfl⟩
  | [exchange, last] =>
    rcases asked_cases received with same | ⟨message, rest, rfl, same⟩
    · have long := (same ▸ asks).length_le
      contradiction
    · rw [same] at asks
      obtain ⟨request, more⟩ := List.cons_prefix_cons.mp asks
      obtain ⟨login, _⟩ := List.cons_prefix_cons.mp more
      obtain ⟨heard, _⟩ := List.cons_prefix_cons.mp hears
      rcases sequential_last (show Sequential ([exchange] ++ [last]) drawn stored from sequential)
        with ⟨_, _, _, _, rfl, _, _, _⟩ | ⟨_, rfl, before⟩
      · contradiction
      · obtain ⟨identifier, rfl, response, rfl⟩ := first request before
        obtain rfl := Request.loginReq.inj login
        obtain rfl : message = _ := Response.phoneRes.inj (heard.trans response)
        rw [List.map_cons, List.map_singleton, response, if_pos rfl]
        refine ⟨.loggedIn (sixDigits identifier List.mem_cons_self), fun said head => ?_⟩
        exact ⟨identifier, (Option.some.inj head).symm, rfl, rfl⟩
  | _ :: _ :: _ :: _ =>
    have long := asks.length_le
    rcases asked_cases received with same | ⟨_, _, _, same⟩ <;>
      simp [same] at long

end Script

def shown : Response → Printed
  | .phoneRes message => .dynamicCode message.identifier
  | .loginRes message => .result message.code (ascii message.desc)

section Follows
variable [Runtime] [Runtime.Documented]

/-- The bytes of some responses, one package behind the other. -/
def packages (responses : List Response) : Bytes :=
  responses.flatMap fun response => package (serializable response)

def sent (connected : Bool) (received : List Response) : List (Frame Runtime.protobuf) :=
  if connected then asked received else []

/-- The session, after the client has read some responses, with others on their way to it. -/
structure Upstream (connected : Bool) (output : Bytes) (received transit : List Response)
    (o : Object) (items : List Item) : Prop where
  written : o.written = received ++ transit
  transfer : Transfer.Inv (sent connected received) ⟨.live o items, output⟩
  sixDigits : ∀ identifier ∈ o.history.drawn, SixDigits identifier
  busy : o.session.stat = .handling → o.session.bufev.unread = false
  looked : output = [] → o.session.bufev.unread = false → held o.session = []

structure Follows (d : Dialogue) (received transit : List Response) : Prop where
  heard : d.client.input ++ d.down = packages transit
  unread : d.client.input ≠ [] → d.client.unread = true
  printed : d.client.printed = received.map shown
  script : Script (received ++ transit)
  silent : d.connected = false → received ++ transit = []
  few : transit.length ≤ 1
  live : ∀ o items, d.conn = .live o items →
    Upstream d.connected d.client.output received transit o items

def Inv (d : Dialogue) : Prop := ∃ received transit, Follows d received transit

theorem inv_init (self : SessionPtr) (eventType : EventType) : (init self eventType).Inv := by
  refine ⟨[], [], rfl, absurd rfl, rfl, .nothing, fun _ => rfl, Nat.zero_le _, ?_⟩
  rintro o items same
  obtain ⟨rfl, rfl⟩ := Conn.live.inj same
  refine ⟨rfl, Transfer.inv_init self eventType [], ?_, fun _ => rfl, fun _ _ => rfl⟩
  intro identifier member
  exact absurd member List.not_mem_nil

theorem sent_length (connected : Bool) (received : List Response) :
    (sent connected received).length ≤ received.length + 1 := by
  cases connected with
  | false => exact Nat.zero_le _
  | true =>
    rcases asked_cases received with same | ⟨_, _, rfl, same⟩ <;>
      simp only [sent, if_true, same, List.length_cons, List.length_nil] <;> omega

theorem sent_few (connected : Bool) (received : List Response) :
    (sent connected received).length ≤ 2 := by
  cases connected with
  | false => exact Nat.zero_le _
  | true => rcases asked_cases received with same | ⟨_, _, _, same⟩ <;> simp [sent, same]

section Upstream
variable {connected : Bool} {output : Bytes} {received transit : List Response} {o : Object}
  {items : List Item}

theorem Upstream.conn (upstream : Upstream connected output received transit o items) :
    Conn.Inv (.live o items) := by
  cases upstream.transfer
  assumption

/-- The frames of which nothing was pushed yet: at most one, and none while a request is
handled or a response is on its way. -/
theorem Upstream.todo (upstream : Upstream connected output received transit o items) :
    ∃ todo : List (Frame Runtime.protobuf), held o.session ++ output = stream todo ∧
      todo.length + o.requests.length = (sent connected received).length ∧
      todo.length + items.length + transit.length ≤ 1 ∧ todo <:+ sent connected received := by
  have conn := upstream.conn
  have counted := sent_length connected received
  have written := congrArg List.length upstream.written
  obtain ⟨_, _, _, record, _⟩ := conn.record
  cases upstream.transfer with
  | live done todo _ split requests bytes =>
    have all := congrArg List.length split
    have pushed := congrArg List.length requests
    rw [List.length_append] at all written
    rw [List.length_map] at pushed
    exact ⟨todo, bytes, by omega, by omega, done, split.symm⟩

/-- While a request is handled nothing else was sent. -/
theorem Upstream.handling (upstream : Upstream connected output received transit o items)
    (stat : o.session.stat = .handling) : output = [] := by
  obtain ⟨todo, bytes, _, few, _⟩ := upstream.todo
  obtain ⟨_, _, _, _, busy⟩ := upstream.conn.record
  rw [if_pos stat] at busy
  obtain rfl : todo = [] := List.eq_nil_of_length_eq_zero (by omega)
  exact (List.append_eq_nil_iff.mp bytes).2

/-- The client has sent one more frame. -/
theorem Upstream.sends {connected' : Bool} {received' transit' : List Response}
    {f : Frame Runtime.protobuf} (upstream : Upstream connected output received transit o items)
    (more : sent connected' received' = sent connected received ++ [f])
    (same : received' ++ transit' = received ++ transit) :
    Upstream connected' (output ++ f.bytes) received' transit' o items where
  written := upstream.written.trans same.symm
  transfer := by
    cases upstream.transfer with
    | live done todo conn split requests bytes =>
      refine .live done (todo ++ [f]) conn ?_ requests ?_
      · rw [more, split, List.append_assoc]
      · rw [← List.append_assoc, bytes]
        simp [stream]
  sixDigits := upstream.sixDigits
  busy := upstream.busy
  looked none := by
    have some : f.bytes ≠ [] := by
      intro none
      have length := f.length
      rw [none, List.length_nil] at length
      omega
    exact absurd (List.append_eq_nil_iff.mp none).2 some

theorem Upstream.arrives {bytes : Bytes} (upstream : Upstream connected output received transit o items)
    (some : bytes ≠ []) (part : bytes <+: output) :
    Upstream connected (output.drop bytes.length) received transit
      { o with session := o.session.arrive bytes } items where
  written := upstream.written
  transfer := by
    obtain ⟨rest, rfl⟩ := part
    rw [List.drop_left]
    cases upstream.transfer with
    | live done todo conn split requests whole =>
      refine .live done todo (Conn.inv_arrive bytes conn) split requests ?_
      rw [NetGate.held_arrive, List.append_assoc]
      exact whole
  sixDigits := upstream.sixDigits
  busy stat := by
    obtain rfl := upstream.handling stat
    exact absurd (List.prefix_nil.mp part) some
  looked _ unread := by contradiction

omit [Runtime] [Runtime.Documented] in
theorem handling_of_item {i : Nat} {item : Item} (conn : Conn.Inv (.live o items))
    (get : items[i]? = some item) : o.session.stat = .handling := by
  cases conn with
  | idle => simp at get
  | busy _ stat => exact stat

/-- What a step of the pool or of `handle_results` leaves as it was. -/
theorem Upstream.carries {a : Conn.Action} {p : Object} {rest : List Item} {said : List Response}
    (internal : a.Internal) (upstream : Upstream connected output received transit o items)
    (handling : o.session.stat = .handling)
    (stepped : Conn.step Runtime.protobuf (.live o items) a = some (.live p rest))
    (written : p.written = o.written ++ said)
    (sixDigits : ∀ identifier ∈ p.history.drawn, SixDigits identifier) :
    Upstream connected output received (transit ++ said) p rest := by
  have kept := Conn.inv_step _ _ _ upstream.conn stepped
  obtain ⟨_, _, same, carries⟩ := Conn.step_internal upstream.conn internal stepped
  obtain ⟨rfl, rfl⟩ := Conn.live.inj same
  refine ⟨?_, Transfer.inv_carries carries kept upstream.transfer, sixDigits, ?_, ?_⟩
  · rw [written, upstream.written, List.append_assoc]
  · intro _
    rw [carries.unread]
    exact upstream.busy handling
  · rw [carries.unread, carries.held]
    exact upstream.looked

/-- A step of the pool or of `handle_results`: what is written is one more response. -/
theorem Upstream.internal {a : Conn.Action} {c : Conn} (internal : a.Internal)
    (upstream : Upstream connected output received transit o items)
    (stepped : Conn.step Runtime.protobuf (.live o items) a = some c) :
    ∃ p rest said, c = .live p rest ∧ writes (.live o items) a = packages said ∧
      (said = [] ∨ rest = []) ∧ Upstream connected output received (transit ++ said) p rest := by
  cases Conn.stepped_of_step stepped with
  | arrive | reqCallback | errCallback => exact internal.elim
  | take i event get =>
    exact ⟨_, _, [], rfl, rfl, .inl rfl, upstream.carries internal (handling_of_item upstream.conn get) stepped
      (List.append_nil _).symm upstream.sixDigits⟩
  | work i rand execution event position get =>
    refine ⟨_, _, [], rfl, rfl, .inl rfl, upstream.carries internal (handling_of_item upstream.conn get) stepped
      (List.append_nil _).symm ?_⟩
    intro identifier member
    rcases List.mem_append.mp member with old | drawn
    · exact upstream.sixDigits identifier old
    · exact Position.sixDigits_draws rand position identifier drawn
  | finish i event response get =>
    exact ⟨_, _, [], rfl, rfl, .inl rfl, upstream.carries internal (handling_of_item upstream.conn get) stepped
      (List.append_nil _).symm upstream.sixDigits⟩
  | handleResult i event get =>
    refine ⟨_, _, [event.message], rfl, ?_, .inr ?_, upstream.carries internal
      (handling_of_item upstream.conn get) stepped (Object.written_handleResult event o)
      upstream.sixDigits⟩
    · simp only [writes, get, packages, List.flatMap_cons, List.flatMap_nil, List.append_nil]
    · obtain ⟨rfl, rfl⟩ := Conn.inv_item upstream.conn get
      rfl

/-- The session was asked nothing but what the client asks, so it answers by the script. -/
theorem Upstream.script (upstream : Upstream connected output received transit o items)
    (idle : items = []) (told : connected = true) : Script (received ++ transit) ∧
      Identifies (received ++ transit) o.history.drawn o.session.stored := by
  subst idle told
  have conn := upstream.conn
  have asks : o.requests <+: (asked received).map (·.message) := by
    cases upstream.transfer with
    | live done todo _ split requests _ =>
      rw [requests, show asked received = done ++ todo from split, List.map_append]
      exact List.prefix_append _ _
  cases conn with
  | idle _ _ _ settled =>
    obtain ⟨answered, responses, sequential⟩ := settled
    have said : o.history.handled.map (·.response) = received ++ transit :=
      responses.symm.trans upstream.written
    rw [← said]
    refine script_of_sequential received sequential upstream.sixDigits ?_ ?_
    · rw [answered] at asks
      exact asks
    · rw [said]
      exact List.prefix_append _ _

omit [Runtime] [Runtime.Documented] in
/-- A callback that meets a full queue closes the session or does what it does otherwise. -/
theorem afterCallback_room (pb : Protobuf) (waitingQueueSize : Nat) (o : Object) (items : List Item) :
    Conn.afterCallback (NetGate.reqCallback pb (push waitingQueueSize) o) items = .closed ∨
      Conn.afterCallback (NetGate.reqCallback pb (push waitingQueueSize) o) items =
        Conn.afterCallback (NetGate.reqCallback pb (push 0) o) items := by
  unfold NetGate.reqCallback
  split
  · exact .inl rfl
  · exact .inr rfl
  · split
    · rw [if_pos (push_iff.mpr (by decide))]
      exact .inr rfl
    · exact .inl rfl

omit [Runtime] [Runtime.Documented] in
theorem afterCallback_record {pb : Protobuf} {push : ReqEvent → Bool} {p : Object} {rest : List Item}
    (rep : Rep o.session) (parsing : o.session.stat ≠ .handling)
    (live : Conn.afterCallback (NetGate.reqCallback pb push o) items = .live p rest) :
    p.written = o.written ∧ p.history.drawn = o.history.drawn ∧ o.requests <+: p.requests := by
  have answered := NetGate.reqCallback_answered pb push rep parsing
  generalize NetGate.reqCallback pb push o = callback at answered live
  cases answered with
  | rejects | refuses => contradiction
  | waits t _ _ _ _ _ same =>
    obtain ⟨rfl, _⟩ := Conn.live.inj live
    exact ⟨congrArg (List.map _) same.output, rfl, List.prefix_refl _⟩
  | accepts _ _ _ _ t _ _ _ _ _ _ _ same =>
    obtain ⟨rfl, _⟩ := Conn.live.inj live
    exact ⟨congrArg (List.map _) same.output, rfl, (List.prefix_append _ _).map _⟩

/-- The client never has two frames on their way. -/
theorem Upstream.not_sticky (upstream : Upstream connected [] received transit o items) :
    ¬ Sticky (held o.session) := by
  obtain ⟨todo, bytes, _, few, _⟩ := upstream.todo
  rw [List.append_nil] at bytes
  match todo with
  | [] =>
    rw [bytes]
    exact fun sticky => not_beginsFrame_nil sticky.beginsFrame
  | [f] =>
    have taken := packed_frame f []
    rw [bytes, stream_cons]
    exact fun sticky => not_beginsFrame_nil ((sticky_iff taken).mp sticky)
  | _ :: _ :: _ => simp only [List.length_cons] at few; omega

theorem Upstream.reqCallback (upstream : Upstream connected output received transit o items)
    (unread : o.session.bufev.unread = true) (waitingQueueSize : Nat) :
    Conn.afterCallback (NetGate.reqCallback Runtime.protobuf (push waitingQueueSize) o) items =
        .closed ∧ kDefaultMaxQueueSize ≤ waitingQueueSize ∨
      ∃ p rest, Conn.afterCallback
          (NetGate.reqCallback Runtime.protobuf (push waitingQueueSize) o) items = .live p rest ∧
        p.session.bufev.unread = false ∧ o.requests <+: p.requests ∧
        Upstream connected output received transit p rest := by
  have parsing : o.session.stat ≠ .handling := fun stat =>
    Bool.noConfusion (unread.symm.trans (upstream.busy stat))
  have rep : Rep o.session := by
    cases upstream.conn with
    | idle rep => exact rep
    | busy rep => exact rep
  have with_room {waitingQueueSize : Nat} (room : waitingQueueSize < kDefaultMaxQueueSize) :
      ∃ p rest, Conn.afterCallback
          (NetGate.reqCallback Runtime.protobuf (push waitingQueueSize) o) items = .live p rest ∧
        p.session.bufev.unread = false ∧ o.requests <+: p.requests ∧
        Upstream connected output received transit p rest := by
    obtain ⟨p, rest, same, seen, kept, last⟩ :=
      Transfer.reqCallback_stream room upstream.transfer parsing
    obtain ⟨written, drawn, more⟩ := afterCallback_record rep parsing same
    refine ⟨p, rest, same, seen, more, written.trans upstream.written, kept, ?_, fun _ => seen, ?_⟩
    · rw [drawn]
      exact upstream.sixDigits
    · rintro rfl _
      exact (last rfl).mpr upstream.not_sticky
  by_cases room : waitingQueueSize < kDefaultMaxQueueSize
  · exact .inr (with_room room)
  · rcases afterCallback_room Runtime.protobuf waitingQueueSize o items with closed | same
    · exact .inl ⟨closed, Nat.le_of_not_lt room⟩
    · rw [same]
      exact .inr (with_room (by decide))

end Upstream

/-! The client reads. -/

section Reads
variable {d : Dialogue} {received transit : List Response}

theorem phoneRes_package (identifier : Int32) (code : ErrorCode) :
    package (serializable (evPhoneRes identifier code)) =
      frame .kPhoneRes (PhoneRes.object ⟨code.value, code.desc, identifier⟩).serialize :=
  package_event (Nat.lt_of_le_of_lt (phoneRes_size identifier code) (by decide))

theorem loginRes_package (code : ErrorCode) :
    package (serializable (evLoginRes code)) =
      frame .kLoginRes (LoginRes.object ⟨code.value, code.desc⟩).serialize :=
  package_event (Nat.lt_of_le_of_lt (loginRes_size code) (by decide))

omit [Runtime] [Runtime.Documented] in
/-- Where a response in transit begins and its declared end has arrived, all of it has. -/
theorem whole_frame {type : EventType} {b input down rest : Bytes} (fits : b.length < 2 ^ 31)
    (heard : input ++ down = frame type b ++ rest)
    (whole : 10 + (declaredSize input).toNat ≤ input.length) :
    ∃ more, input = frame type b ++ more ∧ more ++ down = rest := by
  have size : (UInt32.ofNat b.length).toNat = b.length :=
    UInt32.toNat_ofNat_of_lt' (Nat.lt_trans fits (by decide))
  have prefixes (front : Bytes) (short : front.length ≤ input.length)
      (begins : front <+: frame type b ++ rest) : front <+: input :=
    List.prefix_of_prefix_length_le (heard ▸ begins) (List.prefix_append input down) short
  have header : header type (UInt32.ofNat b.length) <+: input := by
    refine prefixes _ ?_ ?_
    · rw [header_length]
      omega
    · rw [frame_header size.symm, List.append_assoc]
      exact List.prefix_append _ _
  obtain ⟨more, rfl⟩ := prefixes (frame type b) (by
    obtain ⟨after, rfl⟩ := header
    rw [header_size, size] at whole
    rw [frame_length]
    exact whole) (List.prefix_append _ _)
  rw [List.append_assoc] at heard
  exact ⟨more, rfl, List.append_cancel_left heard⟩

theorem loginFrame_bytes (identifier : Int32) : (loginFrame identifier).bytes =
    frame .kLoginReq (LoginReq.object ⟨phoneNumber, identifier⟩).serialize := by
  have size := (loginFrame identifier).size
  rw [Frame.bytes, ← frame_header size.symm]
  rfl

theorem phoneFrame_bytes :
    phoneFrame.bytes = frame .kPhoneReq (PhoneReq.object ⟨phoneNumber⟩).serialize := by
  rw [Frame.bytes, ← frame_header phoneFrame.size.symm]
  rfl

omit [Runtime] [Runtime.Documented] in
/-- What is in transit is the next line of the script. -/
theorem script_next {received : List Response} {response : Response}
    (script : Script (received ++ [response])) :
    (received = [] ∧ ∃ identifier, response = evPhoneRes identifier .kSuccess) ∨
      ∃ identifier, received = [evPhoneRes identifier .kSuccess] ∧ response = evLoginRes .kSuccess := by
  generalize all : received ++ [response] = responses at script
  cases script with
  | nothing => simp at all
  | @identified identifier _ =>
    obtain ⟨rfl, same⟩ := List.append_inj' (all.trans (List.nil_append _).symm) rfl
    exact .inl ⟨rfl, identifier, List.singleton_inj.mp same⟩
  | @loggedIn identifier _ =>
    obtain ⟨rfl, same⟩ := List.append_inj' (show received ++ [response] =
      [evPhoneRes identifier .kSuccess] ++ [evLoginRes .kSuccess] from all) rfl
    exact .inr ⟨identifier, rfl, List.singleton_inj.mp same⟩

theorem Upstream.hears {connected : Bool} {output : Bytes} {o : Object} {items : List Item}
    {received' transit' : List Response}
    (upstream : Upstream connected output received transit o items)
    (same : received' ++ transit' = received ++ transit)
    (sends : sent connected received' = sent connected received) :
    Upstream connected output received' transit' o items :=
  ⟨upstream.written.trans same.symm, sends ▸ upstream.transfer, upstream.sixDigits, upstream.busy,
    upstream.looked⟩

/-- The read callback finds the first response in transit, prints it and answers it. -/
theorem Follows.reads (follows : Follows d received transit) (whole : Whole d .clientRdCb) :
    ∃ response client, transit = [response] ∧ ClientSimulator.clientRdCb d.client = .ok client ∧
      client.freed = d.client.freed ∧
      Follows { d with client := client } (received ++ [response]) [] := by
  have fits {n m : Nat} (bound : n ≤ m) (small : m < 2 ^ 31) : n < 2 ^ 31 :=
    Nat.lt_of_le_of_lt bound small
  have few := follows.few
  match transit with
  | [] =>
    have none : d.client.input = [] := (List.append_eq_nil_iff.mp follows.heard).1
    have found : 10 + (declaredSize d.client.input).toNat ≤ d.client.input.length := whole
    rw [none, List.length_nil] at found
    omega
  | [response] =>
    have script := follows.script
    have heard : d.client.input ++ d.down = package (serializable response) ++ [] := follows.heard
    have told : d.connected = true := by
      by_contra never
      have silent := follows.silent (Bool.eq_false_iff.mpr never)
      simp at silent
    rcases script_next script with ⟨rfl, identifier, rfl⟩ | ⟨identifier, rfl, rfl⟩
    · rw [phoneRes_package] at heard
      have size := fits (phoneRes_size identifier .kSuccess) (by decide)
      obtain ⟨more, found, later⟩ :=
        whole_frame (Message.serialize_length size ▸ size) heard whole
      obtain ⟨rfl, none⟩ := List.append_eq_nil_iff.mp later
      have login := fits (loginReq_size identifier) (by decide)
      have reads : ClientSimulator.clientRdCb d.client = .ok { d.client with
          input := []
          unread := false
          output := d.client.output ++ (loginFrame identifier).bytes
          printed := d.client.printed ++ [.dynamicCode identifier] } := by
        rw [clientRdCb_phoneRes size found, loginFrame_bytes]
        exact congrArg _ (send_frame .kLoginReq login _)
      refine ⟨_, _, rfl, reads, rfl, none, absurd rfl, ?_, script, follows.silent, Nat.zero_le _, ?_⟩
      · rw [follows.printed]
        rfl
      · intro o items same
        refine (follows.live o items same).sends ?_ rfl
        rw [told]
        rfl
    · rw [loginRes_package] at heard
      have size := fits (loginRes_size .kSuccess) (by decide)
      obtain ⟨more, found, later⟩ :=
        whole_frame (Message.serialize_length size ▸ size) heard whole
      obtain ⟨rfl, none⟩ := List.append_eq_nil_iff.mp later
      have reads := clientRdCb_loginRes size found
      refine ⟨_, _, rfl, reads, rfl, none, absurd rfl, ?_, script, follows.silent, Nat.zero_le _, ?_⟩
      · rw [follows.printed]
        rfl
      · intro o items same
        exact (follows.live o items same).hears rfl rfl
  | _ :: _ :: _ =>
    simp only [List.length_cons] at few
    omega

end Reads

section Step
variable {d e : Dialogue} {received transit : List Response}

/-- The dialogue goes on, and where more was said, the session has just said it. -/
def Continues (said : List Response) (e : Dialogue) : Prop :=
  ∃ received transit, Follows e received transit ∧
    (received ++ transit = said ∨ ∃ o, e.conn = .live o [])

theorem continues_clientEvCb {events : UInt16} (follows : Follows d received transit)
    (stepped : d.step (.clientEvCb events) = some e) : Continues (received ++ transit) e := by
  obtain ⟨_, stepped⟩ := Option.ite_none_left_eq_some.mp stepped
  split at stepped
  · -- The client only notes an error.
    rename_i quiet
    obtain rfl := Option.some.inj stepped
    refine ⟨received, transit, ?_, .inl rfl⟩
    rw [ClientSimulator.clientEvCb, if_neg (not_not.mpr quiet)]
    split
    · exact ⟨follows.heard, follows.unread, follows.printed, follows.script, follows.silent,
        follows.few, follows.live⟩
    · exact follows
  · rename_i connects
    obtain ⟨before, stepped⟩ := Option.ite_none_left_eq_some.mp stepped
    obtain rfl := Option.some.inj stepped
    have never : d.connected = false := Bool.eq_false_iff.mpr before
    obtain ⟨rfl, rfl⟩ := List.append_eq_nil_iff.mp (follows.silent never)
    have sends : ClientSimulator.clientEvCb events d.client =
        { d.client with output := d.client.output ++ phoneFrame.bytes } := by
      rw [ClientSimulator.clientEvCb, if_pos connects, phoneFrame_bytes]
      exact send_frame .kPhoneReq (Nat.lt_of_le_of_lt phoneReq_size (by decide)) d.client
    rw [sends]
    refine ⟨[], [], ⟨follows.heard, follows.unread, follows.printed, follows.script, fun _ => rfl,
      follows.few, ?_⟩, .inl rfl⟩
    intro o items same
    refine (follows.live o items same).sends ?_ rfl
    rw [never]
    rfl

theorem continues_up {bytes : Bytes} (follows : Follows d received transit)
    (stepped : d.step (.up bytes) = some e) : Continues (received ++ transit) e := by
  obtain ⟨sends, stepped⟩ := Option.ite_none_left_eq_some.mp stepped
  obtain ⟨conn, arrives, rfl⟩ := Option.map_eq_some_iff.mp stepped
  have part : bytes <+: d.client.output := not_not.mp fun other => sends (.inr other)
  refine ⟨received, transit, ⟨follows.heard, follows.unread, follows.printed, follows.script,
    follows.silent, follows.few, ?_⟩, .inl rfl⟩
  rintro o items rfl
  cases live : d.conn with
  | closed =>
    rw [live] at arrives
    contradiction
  | live p rest =>
    rw [live] at arrives
    cases Conn.stepped_of_step arrives with
    | arrive _ some => exact (follows.live p _ live).arrives some part

omit [Runtime.Documented] in
theorem step_server {a : Conn.Action} (stepped : d.step (.server a) = some e) :
    ¬ returned d.conn a ∧ ∃ conn, d.conn.step Runtime.protobuf a = some conn ∧
      e = { d with conn := conn, down := d.down ++ writes d.conn a } := by
  have split : (if returned d.conn a then none
      else (d.conn.step Runtime.protobuf a).map fun conn =>
        { d with conn := conn, down := d.down ++ writes d.conn a }) = some e := by
    cases a with
    | arrive bytes => contradiction
    | _ => exact stepped
  obtain ⟨continues, split⟩ := Option.ite_none_left_eq_some.mp split
  obtain ⟨conn, inner, same⟩ := Option.map_eq_some_iff.mp split
  exact ⟨continues, conn, inner, same.symm⟩

/-- A session that was not asked has not answered. -/
theorem Upstream.silent {output : Bytes} {received transit : List Response} {o : Object}
    {items : List Item} (upstream : Upstream false output received transit o items) :
    received ++ transit = [] := by
  obtain ⟨todo, _, pushed, _, _⟩ := upstream.todo
  obtain ⟨_, _, _, record, _⟩ := upstream.conn.record
  have none : (sent false received).length = 0 := rfl
  apply List.eq_nil_of_length_eq_zero
  rw [← upstream.written]
  omega

theorem continues_server {a : Conn.Action} (follows : Follows d received transit)
    (stepped : d.step (.server a) = some e) : Continues (received ++ transit) e := by
  obtain ⟨_, conn, inner, rfl⟩ := step_server stepped
  cases live : d.conn with
  | closed =>
    rw [live] at inner
    contradiction
  | live o items =>
    rw [live] at inner
    have upstream := follows.live o items live
    by_cases internal : a.Internal
    · obtain ⟨p, rest, said, rfl, wrote, ends, after⟩ := upstream.internal internal inner
      have silent : d.connected = false → received ++ (transit ++ said) = [] := by
        intro never
        rw [never] at after
        exact after.silent
      obtain ⟨todo, _, _, few, _⟩ := after.todo
      refine ⟨received, transit ++ said,
        ⟨?_, follows.unread, follows.printed, ?_, silent, by omega, ?_⟩, ?_⟩
      · rw [wrote, ← List.append_assoc, follows.heard, packages, packages, packages, List.flatMap_append]
      · rcases ends with rfl | rfl
        · rw [List.append_nil]
          exact follows.script
        · cases told : d.connected with
          | true => exact (after.script rfl told).1
          | false =>
            rw [silent told]
            exact .nothing
      · rintro q items same
        obtain ⟨rfl, rfl⟩ := Conn.live.inj same
        exact after
      · rcases ends with rfl | rfl
        · rw [List.append_nil]
          exact .inl rfl
        · exact .inr ⟨p, rfl⟩
    · have quiet (c : Conn) : d.down ++ writes c a = d.down := by
        cases a with
        | arrive | reqCallback | errCallback => cases c <;> exact List.append_nil _
        | take | work | finish | handleResult => exact absurd trivial internal
      have heard : d.client.input ++ (d.down ++ writes (.live o items) a) = packages transit := by
        rw [quiet]
        exact follows.heard
      refine ⟨received, transit, ⟨heard, follows.unread, follows.printed, follows.script,
        follows.silent, follows.few, ?_⟩, .inl rfl⟩
      rintro q left rfl
      cases a with
      | take | work | finish | handleResult => exact absurd trivial internal
      | arrive bytes => contradiction
      | errCallback events => cases Conn.stepped_of_step inner
      | reqCallback waitingQueueSize =>
        obtain ⟨unread, inner⟩ := Option.ite_none_right_eq_some.mp inner
        have same := Option.some.inj inner
        rcases upstream.reqCallback unread waitingQueueSize with ⟨closed, _⟩ | ⟨p, rest, lives, _, _, after⟩
        · exact Conn.noConfusion (closed.symm.trans same)
        · obtain ⟨rfl, rfl⟩ := Conn.live.inj (lives.symm.trans same)
          exact after

theorem continues_down {bytes : Bytes} (follows : Follows d received transit)
    (stepped : d.step (.down bytes) = some e) : Continues (received ++ transit) e := by
  obtain ⟨delivers, stepped⟩ := Option.ite_none_left_eq_some.mp stepped
  obtain rfl := Option.some.inj stepped
  obtain ⟨rest, split⟩ : bytes <+: d.down := not_not.mp fun other => delivers (.inr (.inr other))
  refine ⟨received, transit, ⟨?_, fun _ => rfl, follows.printed, follows.script, follows.silent,
    follows.few, follows.live⟩, .inl rfl⟩
  rw [← split, List.drop_left, List.append_assoc, split]
  exact follows.heard

/-- The callback of the client returns where a whole response is there. -/
theorem step_clientRdCb (follows : Follows d received transit) (whole : Whole d .clientRdCb)
    (stepped : d.step .clientRdCb = some e) : ∃ response client, transit = [response] ∧
      client.freed = d.client.freed ∧ e = { d with client := client } ∧
      Follows { d with client := client } (received ++ [response]) [] := by
  obtain ⟨response, client, single, returns, freed, after⟩ := follows.reads whole
  obtain ⟨_, stepped⟩ := Option.ite_none_left_eq_some.mp stepped
  rw [returns] at stepped
  exact ⟨response, client, single, freed, (Option.some.inj stepped).symm, after⟩

theorem continues_step {a : Action} (follows : Follows d received transit) (whole : Whole d a)
    (stepped : d.step a = some e) : Continues (received ++ transit) e := by
  cases a with
  | clientEvCb events => exact continues_clientEvCb follows stepped
  | up bytes => exact continues_up follows stepped
  | server a => exact continues_server follows stepped
  | down bytes => exact continues_down follows stepped
  | clientRdCb =>
    obtain ⟨response, client, rfl, _, rfl, after⟩ := step_clientRdCb follows whole stepped
    exact ⟨_, _, after, .inl (List.append_nil _)⟩

theorem inv_step (d : Dialogue) (a : Action) (e : Dialogue) (inv : d.Inv) (whole : Whole d a)
    (stepped : d.step a = some e) : e.Inv := by
  obtain ⟨received, transit, follows⟩ := inv
  obtain ⟨received, transit, after, _⟩ := continues_step follows whole stepped
  exact ⟨received, transit, after⟩

end Step
end Follows

end Dialogue
end Shbk2
