import Shbk2.Withholding

/-! Two deliveries of one stream of well-formed frames. The stream may be cut
anywhere and its arrival may interleave with the handling of requests in any
order; the fate of the session is the same as long as no callback meets the
session while it handles a request, and the last one does not find two frames. -/
namespace Shbk2
open MsgProxy

/-- A well-formed request frame. -/
structure Frame (pb : Protobuf) where
  message : Request
  body : Bytes
  nonempty : body ≠ []
  bounded : body.length < 2 ^ 31
  decodes : ∃ parse, pb.parseFromArray message.type = some parse ∧
    parse body (UInt32.ofNat body.length).toInt32 = (true, message)

section Stream
variable {pb : Protobuf}

def Frame.bytes (f : Frame pb) : Bytes :=
  header f.message.type (UInt32.ofNat f.body.length) ++ f.body

def stream (frames : List (Frame pb)) : Bytes := (frames.map Frame.bytes).flatten

theorem request_type (request : Request) : request.type.IsRequest := by
  cases request with
  | phoneReq message => exact .inl rfl
  | loginReq message => exact .inr rfl

theorem Frame.size (f : Frame pb) : (UInt32.ofNat f.body.length).toNat = f.body.length :=
  UInt32.toNat_ofNat_of_lt' (Nat.lt_trans f.bounded (by decide))

theorem Frame.length (f : Frame pb) : f.bytes.length = 10 + f.body.length := by
  rw [bytes, List.length_append, header_length]

/-- The parser of the frame's type reads its message, whatever it answers. -/
theorem Frame.parsed (f : Frame pb) {parse : Bytes → Int32 → Bool × Request}
    (found : pb.parseFromArray f.message.type = some parse) :
    (parse f.body (UInt32.ofNat f.body.length).toInt32).2 = f.message := by
  obtain ⟨own, same, result⟩ := f.decodes
  obtain rfl := Option.some.inj (same.symm.trans found)
  rw [result]

theorem stream_cons (f : Frame pb) (frames : List (Frame pb)) :
    stream (f :: frames) = f.bytes ++ stream frames := by
  simp only [stream, List.map_cons, List.flatten_cons]

theorem beginsFrame_cons (f : Frame pb) (frames : List (Frame pb)) :
    BeginsFrame (stream (f :: frames)) :=
  ⟨f.message.type, _, f.body, stream frames, request_type f.message, f.size.symm, by
    rw [stream_cons, Frame.bytes, List.append_assoc]⟩

theorem stream_cons_ne_nil (f : Frame pb) (frames : List (Frame pb)) :
    stream (f :: frames) ≠ [] := by
  intro none
  have frame := beginsFrame_cons f frames
  rw [none] at frame
  exact not_beginsFrame_nil frame

/-- A stream is at its end when no frame begins. -/
theorem stream_eq_nil_iff {frames : List (Frame pb)} :
    stream frames = [] ↔ ¬ BeginsFrame (stream frames) := by
  cases frames with
  | nil => exact iff_of_true rfl not_beginsFrame_nil
  | cons f fs => exact iff_of_false (stream_cons_ne_nil f fs) (not_not.mpr (beginsFrame_cons f fs))

theorem packed_frame (f : Frame pb) (rest : Bytes) :
    packed (f.bytes ++ rest) = .frame f.message.type f.body rest := by
  have positive := List.length_pos_iff.mpr f.nonempty
  have more : ¬ ((f.bytes ++ rest).length = 10 ∧ (f.bytes ++ rest).take 4 = headerCont) := by
    rw [List.length_append, f.length]
    omega
  rw [packed, if_neg more, Frame.bytes, List.append_assoc]
  exact oneShot_complete (request_type f.message) f.size.symm

/-- The parse of the part of a stream that has arrived. -/
theorem packed_stream {todo : List (Frame pb)} {bytes remaining : Bytes}
    (split : bytes ++ remaining = stream todo) :
    (packed bytes = .incomplete ∧ (remaining = [] → bytes = [])) ∨
      ∃ f fs rest, todo = f :: fs ∧ bytes = f.bytes ++ rest ∧ rest ++ remaining = stream fs := by
  cases todo with
  | nil =>
    obtain ⟨rfl, rfl⟩ := List.append_eq_nil_iff.mp split
    exact .inl ⟨packed_short (by decide), fun _ => rfl⟩
  | cons f fs =>
    rw [stream_cons] at split
    rcases List.append_eq_append_iff.mp split with ⟨missing, whole, later⟩ | ⟨rest, arrived, later⟩
    · by_cases none : missing = []
      · subst none
        exact .inr ⟨f, fs, [], rfl, by simpa using whole.symm, by simpa using later⟩
      · refine .inl ⟨packed_part f.size.symm whole none, fun nothing => ?_⟩
        rw [nothing] at later
        exact absurd (List.append_eq_nil_iff.mp later.symm).1 none
    · exact .inr ⟨f, fs, rest, rfl, arrived, later.symm⟩

/-- The frame that a client makes of a request. -/
def Frame.encoded (request : Request) (short : (WireFormat.encode request).length < 2 ^ 31) :
    Frame WireFormat.protobuf where
  message := request
  body := WireFormat.encode request
  nonempty := WireFormat.encode_ne_nil request
  bounded := short
  decodes := WireFormat.parseFromArray_encode request short

end Stream

/-- A connection, and what its client has yet to send. -/
structure Transfer where
  conn : Conn
  remaining : Bytes

namespace Transfer
variable {pb : Protobuf}

def init (self : SessionPtr) (eventType : EventType) (frames : List (Frame pb)) : Transfer :=
  ⟨.init self eventType, stream frames⟩

/-- The client sends the stream and stays; the waiting queue has room. -/
def step (pb : Protobuf) : Transfer → Conn.Action → Option Transfer
  | ⟨c, remaining⟩, .arrive bytes =>
    if bytes <+: remaining then
      (c.step pb (.arrive bytes)).map fun c => ⟨c, remaining.drop bytes.length⟩
    else none
  | ⟨c, remaining⟩, .reqCallback waitingQueueSize =>
    if waitingQueueSize < kDefaultMaxQueueSize then
      (c.step pb (.reqCallback waitingQueueSize)).map fun c => ⟨c, remaining⟩
    else none
  | _, .errCallback _ => none
  | ⟨c, remaining⟩, a => (c.step pb a).map fun c => ⟨c, remaining⟩

def Live (t : Transfer) : Prop := t.conn ≠ .closed

/-- Everything has arrived, and the server has nothing left to do. -/
def Done : Transfer → Prop
  | ⟨.live o inFlight, remaining⟩ => remaining = [] ∧ inFlight = [] ∧ o.session.bufev.unread = false
  | ⟨.closed, _⟩ => False

def dispatched : Transfer → List Request
  | ⟨.live o _, _⟩ => o.requests
  | ⟨.closed, _⟩ => []

/-- No session was closed, and when both are done each frame was dispatched in both. -/
def SameFate (frames : List (Frame pb)) (t u : Transfer) : Prop :=
  t.Live ∧ u.Live ∧
    (t.Done → u.Done → t.dispatched = u.dispatched ∧ t.dispatched = frames.map (·.message))

/-- No callback while a request is handled. -/
def Undisturbed : Transfer → Conn.Action → Prop
  | ⟨.live o _, _⟩, .reqCallback _ => o.session.stat ≠ .handling
  | _, _ => True

/-- A callback that runs after everything has arrived finds at most one frame. -/
def TakesLast : Transfer → Conn.Action → Prop
  | ⟨.live o _, remaining⟩, .reqCallback _ => remaining = [] → ¬ Sticky (held o.session)
  | _, _ => True

/-- The frames before some point of the stream were dispatched; those behind it
are what is held and what is still to come. -/
inductive Inv (frames : List (Frame pb)) : Transfer → Prop where
  | live {o : Object} {items : List Item} {remaining : Bytes} (done todo : List (Frame pb)) :
      Conn.Inv (.live o items) → frames = done ++ todo → o.requests = done.map (·.message) →
      held o.session ++ remaining = stream todo → Inv frames ⟨.live o items, remaining⟩

theorem inv_init (self : SessionPtr) (eventType : EventType) (frames : List (Frame pb)) :
    Inv frames (init self eventType frames) :=
  .live [] frames (Conn.inv_init self eventType) rfl rfl rfl

variable {frames : List (Frame pb)}

theorem inv_carries {o p : Object} {items rest : List Item} {remaining : Bytes}
    (carries : Conn.Carries o p) (kept : Conn.Inv (.live p rest))
    (inv : Inv frames ⟨.live o items, remaining⟩) : Inv frames ⟨.live p rest, remaining⟩ := by
  cases inv with
  | live done todo _ split requests bytes =>
    refine .live done todo kept split ?_ ?_
    · rw [Object.requests, carries.pushed]
      exact requests
    · rw [carries.held]
      exact bytes

/-- What a callback does that does not meet the session in the handling state. -/
theorem reqCallback_stream {o : Object} {items : List Item} {remaining : Bytes}
    {waitingQueueSize : Nat} (room : waitingQueueSize < kDefaultMaxQueueSize)
    (inv : Inv frames ⟨.live o items, remaining⟩) (parsing : o.session.stat ≠ .handling) :
    ∃ p rest, Conn.afterCallback (NetGate.reqCallback pb (push waitingQueueSize) o) items =
        .live p rest ∧ p.session.bufev.unread = false ∧ Inv frames ⟨.live p rest, remaining⟩ ∧
      (remaining = [] → (held p.session = [] ↔ ¬ Sticky (held o.session))) := by
  cases inv with
  | live done todo inv split requests bytes =>
    have kept : Conn.Inv
        (Conn.afterCallback (NetGate.reqCallback pb (push waitingQueueSize) o) items) :=
      Conn.inv_reqCallback inv
    cases inv with
    | busy _ handling => exact absurd handling parsing
    | idle rep =>
      have answered := NetGate.reqCallback_answered pb (push waitingQueueSize) rep parsing
      generalize NetGate.reqCallback pb (push waitingQueueSize) o = callback at answered kept ⊢
      rcases packed_stream bytes with ⟨waits, nothing⟩ | ⟨f, fs, rest, rfl, arrived, later⟩
      · cases answered with
        | rejects other => rcases other with other | other <;> simp [waits] at other
        | refuses _ _ _ _ other => simp [waits] at other
        | accepts _ _ _ _ _ other => simp [waits] at other
        | waits t _ rep same stat seen record =>
          refine ⟨_, _, rfl, seen, .live done todo kept split requests ?_, ?_⟩
          · rw [same]
            exact bytes
          · intro last
            rw [same, nothing last]
            exact iff_of_true rfl fun sticky => not_beginsFrame_nil sticky.beginsFrame
      · have taken : packed (held o.session) = .frame f.message.type f.body rest :=
          arrived ▸ packed_frame f rest
        cases answered with
        | rejects other => rcases other with other | other <;> simp [taken] at other
        | refuses _ _ _ _ _ _ refused =>
          exact Bool.noConfusion (refused.symm.trans (push_iff.mpr room))
        | waits _ other => simp [taken] at other
        | accepts type body after parse t parsed found accepted stat rep input seen same =>
          obtain ⟨rfl, rfl, rfl⟩ := Parsed.frame.inj (parsed.symm.trans taken)
          have left : held t = after := (held_idle (.inr stat)).trans input
          refine ⟨_, _, rfl, seen, .live (done ++ [f]) fs kept ?_ ?_ ?_, ?_⟩
          · rw [split, List.append_assoc, List.singleton_append]
          · rw [Object.requests, List.map_append, List.map_append, List.map_singleton,
              List.map_singleton, f.parsed found]
            exact congrArg (· ++ _) requests
          · rw [left]
            exact later
          · intro last
            rw [last, List.append_nil] at later
            rw [sticky_iff taken, left, later]
            exact stream_eq_nil_iff

/-- The bytes are all there and have been looked at: from here on nothing arrives. -/
def Arrived : Transfer → Prop
  | ⟨.live o _, remaining⟩ => remaining = [] ∧ o.session.bufev.unread = false
  | ⟨.closed, _⟩ => False

def unparsed : Transfer → Bytes
  | ⟨.live o _, _⟩ => held o.session
  | ⟨.closed, _⟩ => []

/-- One step of a delivery. Internal steps and arrivals only move bytes along. -/
inductive Steps (frames : List (Frame pb)) : Transfer → Conn.Action → Transfer → Prop where
  | arrives {o : Object} {items : List Item} {remaining : Bytes} {bytes rest : Bytes} :
      bytes ≠ [] → remaining = bytes ++ rest →
      Inv frames ⟨.live { o with session := o.session.arrive bytes } items, rest⟩ →
      Steps frames ⟨.live o items, remaining⟩ (.arrive bytes)
        ⟨.live { o with session := o.session.arrive bytes } items, rest⟩
  | disturbs {o : Object} {items : List Item} {remaining : Bytes} {waitingQueueSize : Nat} :
      o.session.bufev.unread = true → o.session.stat = .handling →
      Steps frames ⟨.live o items, remaining⟩ (.reqCallback waitingQueueSize) ⟨.closed, remaining⟩
  | parses {o p : Object} {items rest : List Item} {remaining : Bytes} {waitingQueueSize : Nat} :
      o.session.bufev.unread = true → o.session.stat ≠ .handling →
      p.session.bufev.unread = false → Inv frames ⟨.live p rest, remaining⟩ →
      (remaining = [] → (held p.session = [] ↔ ¬ Sticky (held o.session))) →
      Steps frames ⟨.live o items, remaining⟩ (.reqCallback waitingQueueSize) ⟨.live p rest, remaining⟩
  | carries {o p : Object} {items rest : List Item} {remaining : Bytes} {a : Conn.Action} :
      a.Internal → Conn.Carries o p → Inv frames ⟨.live p rest, remaining⟩ →
      Steps frames ⟨.live o items, remaining⟩ a ⟨.live p rest, remaining⟩

theorem step_internal {a : Conn.Action} (internal : a.Internal) (c : Conn) (remaining : Bytes) :
    step pb ⟨c, remaining⟩ a = (c.step pb a).map fun c => ⟨c, remaining⟩ := by
  cases a with
  | arrive | reqCallback | errCallback => exact internal.elim
  | take | work | finish | handleResult => rfl

theorem steps_internal {o : Object} {items : List Item} {remaining : Bytes} {a : Conn.Action}
    {t : Transfer} (internal : a.Internal) (inv : Inv frames ⟨.live o items, remaining⟩)
    (stepped : step pb ⟨.live o items, remaining⟩ a = some t) :
    Steps frames ⟨.live o items, remaining⟩ a t := by
  rw [step_internal internal] at stepped
  obtain ⟨d, inner, rfl⟩ := Option.map_eq_some_iff.mp stepped
  cases inv with
  | live done todo conn split requests bytes =>
    have kept := Conn.inv_step _ _ _ conn inner
    obtain ⟨p, rest, rfl, carries⟩ := Conn.step_internal conn internal inner
    exact .carries internal carries
      (inv_carries carries kept (.live done todo conn split requests bytes))

theorem step_steps {s t : Transfer} {a : Conn.Action} (inv : Inv frames s)
    (stepped : step pb s a = some t) : Steps frames s a t := by
  obtain ⟨c, remaining⟩ := s
  cases c with
  | closed => cases inv
  | live o items =>
    cases a with
    | take | work | finish | handleResult => exact steps_internal trivial inv stepped
    | errCallback events => contradiction
    | arrive bytes =>
      obtain ⟨⟨rest, rfl⟩, stepped⟩ := Option.ite_none_right_eq_some.mp stepped
      obtain ⟨d, enabled, rfl⟩ := Option.map_eq_some_iff.mp stepped
      rw [List.drop_left]
      cases Conn.stepped_of_step enabled with
      | arrive _ some =>
        refine .arrives some rfl ?_
        cases inv with
        | live done todo inv split requests whole =>
          refine .live done todo (Conn.inv_arrive bytes inv) split requests ?_
          rw [NetGate.held_arrive, List.append_assoc]
          exact whole
    | reqCallback waitingQueueSize =>
      obtain ⟨room, stepped⟩ := Option.ite_none_right_eq_some.mp stepped
      obtain ⟨d, enabled, rfl⟩ := Option.map_eq_some_iff.mp stepped
      cases Conn.stepped_of_step enabled with
      | reqCallback _ unread =>
        by_cases handling : o.session.stat = .handling
        · rw [NetGate.reqCallback_handling handling]
          exact .disturbs unread handling
        · obtain ⟨p, rest, same, seen, kept, last⟩ := reqCallback_stream room inv handling
          rw [same]
          exact .parses unread handling seen kept last

theorem inv_step (s : Transfer) (a : Conn.Action) (t : Transfer) (inv : Inv frames s)
    (undisturbed : Undisturbed s a) (stepped : step pb s a = some t) : Inv frames t := by
  cases step_steps inv stepped with
  | arrives _ _ kept | parses _ _ _ kept | carries _ _ kept => exact kept
  | disturbs _ handling => exact absurd handling undisturbed

theorem inv_live (s : Transfer) (inv : Inv frames s) : s.Live := by
  cases inv
  exact Conn.noConfusion

theorem undisturbed_internal {a : Conn.Action} (internal : a.Internal) {o : Object}
    {items : List Item} {remaining : Bytes} : Undisturbed ⟨.live o items, remaining⟩ a := by
  cases a with
  | arrive | reqCallback | errCallback => exact internal.elim
  | take | work | finish | handleResult => trivial

theorem undisturbed_of_live (s : Transfer) (a : Conn.Action) (t : Transfer) (inv : Inv frames s)
    (stepped : step pb s a = some t) (live : t.Live) : Undisturbed s a := by
  cases step_steps inv stepped with
  | arrives => trivial
  | disturbs => exact absurd rfl live
  | parses _ parsing => exact parsing
  | carries internal => exact undisturbed_internal internal

/-- A closed session stays closed, so a run that ends alive was alive all along. -/
theorem always_live {s t : Transfer} {actions : List Conn.Action}
    (ran : Transition.run (step pb) s actions = some t) (live : t.Live) :
    Transition.Always (step pb) Live s actions := by
  rintro before ⟨c, remaining⟩ ⟨rest, rfl⟩ reached closed
  rw [Transition.run_append, reached] at ran
  obtain rfl : c = .closed := closed
  cases rest with
  | nil => exact live (Option.some.inj ran ▸ rfl)
  | cons a rest =>
    obtain ⟨middle, stepped, _⟩ := Transition.run_cons_some ran
    cases a <;> simp [step, Conn.step] at stepped

/-- The session survives exactly the undisturbed runs. -/
theorem live_iff_undisturbed {s t : Transfer} {actions : List Conn.Action} (inv : Inv frames s)
    (ran : Transition.run (step pb) s actions = some t) :
    t.Live ↔ Transition.Along (step pb) Undisturbed s actions := by
  have exact : Transition.Always (step pb) Live s actions ↔
      Transition.Along (step pb) Undisturbed s actions :=
    Transition.always_iff_along inv_step inv_live undisturbed_of_live inv ran
  constructor
  · intro live
    exact exact.mp (always_live ran live)
  · intro undisturbed
    exact (exact.mpr undisturbed).final ran

theorem takesLast_internal {a : Conn.Action} (internal : a.Internal) {o : Object}
    {items : List Item} {remaining : Bytes} : TakesLast ⟨.live o items, remaining⟩ a := by
  cases a with
  | arrive | reqCallback | errCallback => exact internal.elim
  | take | work | finish | handleResult => trivial

/-- Once everything was looked at, what is left is left for good. -/
theorem arrived_run {s t : Transfer} {actions : List Conn.Action} (inv : Inv frames s)
    (arrived : s.Arrived) (ran : Transition.run (step pb) s actions = some t) :
    t.unparsed = s.unparsed ∧ Transition.Along (step pb) TakesLast s actions := by
  induction actions generalizing s with
  | nil =>
    obtain rfl := Option.some.inj ran
    exact ⟨rfl, Transition.along_nil⟩
  | cons a actions ih =>
    obtain ⟨middle, stepped, rest⟩ := Transition.run_cons_some ran
    cases step_steps inv stepped with
    | arrives some bytes =>
      exact absurd (List.append_eq_nil_iff.mp (bytes.symm.trans arrived.1)).1 some
    | disturbs unread | parses unread =>
      exact Bool.noConfusion (unread.symm.trans arrived.2)
    | carries internal carries kept =>
      obtain ⟨same, along⟩ := ih kept ⟨arrived.1, carries.unread.trans arrived.2⟩ rest
      exact ⟨same.trans carries.held, (Transition.along_cons_some stepped).mpr
        ⟨takesLast_internal internal, along⟩⟩

theorem Done.live {t : Transfer} (done : t.Done) : t.Live := by
  obtain ⟨c, remaining⟩ := t
  cases c with
  | closed => exact done.elim
  | live => exact Conn.noConfusion

/-- In a run to the end, no frame is left behind exactly when the last callback
does not find two. -/
theorem takesLast_iff {s t : Transfer} {actions : List Conn.Action} (inv : Inv frames s)
    (ran : Transition.run (step pb) s actions = some t) (coming : ¬ s.Arrived) (done : t.Done) :
    Transition.Along (step pb) TakesLast s actions ↔ t.unparsed = [] := by
  induction actions generalizing s with
  | nil =>
    obtain rfl := Option.some.inj ran
    obtain ⟨c, remaining⟩ := s
    cases c with
    | closed => exact done.elim
    | live o items => exact absurd ⟨done.1, done.2.2⟩ coming
  | cons a actions ih =>
    obtain ⟨middle, stepped, rest⟩ := Transition.run_cons_some ran
    rw [Transition.along_cons_some stepped]
    cases step_steps inv stepped with
    | arrives some bytes kept =>
      rw [ih kept rest fun arrived => Bool.noConfusion arrived.2]
      exact and_iff_right trivial
    | disturbs =>
      exact absurd rfl (always_live rest done.live [] _ List.nil_prefix rfl)
    | @parses o p _ _ remaining _ unread parsing seen kept last =>
      by_cases none : remaining = []
      · obtain ⟨same, along⟩ := arrived_run kept ⟨none, seen⟩ rest
        rw [same, show unparsed ⟨.live p _, remaining⟩ = held p.session from rfl, last none]
        exact ⟨fun both => both.1 none, fun alone => ⟨fun _ => alone, along⟩⟩
      · rw [ih kept rest fun arrived => none arrived.1]
        exact and_iff_right fun nothing => absurd nothing none
    | carries internal carries kept =>
      rw [ih kept rest fun arrived => coming ⟨arrived.1, carries.unread ▸ arrived.2⟩]
      exact and_iff_right (takesLast_internal internal)

/-- At the end everything was dispatched that is not still held. -/
theorem dispatched_iff {t : Transfer} (inv : Inv frames t) (done : t.Done) :
    t.dispatched = frames.map (·.message) ↔ t.unparsed = [] := by
  cases inv with
  | live before todo _ split requests bytes =>
    obtain ⟨rfl, _, _⟩ := done
    rw [List.append_nil] at bytes
    simp only [dispatched, unparsed, requests, split, bytes, List.map_append]
    cases todo with
    | nil => simp [stream]
    | cons f fs => exact iff_of_false (by simp) (stream_cons_ne_nil f fs)

theorem init_arrived (self : SessionPtr) (eventType : EventType) (frames : List (Frame pb))
    (arrived : (init self eventType frames).Arrived) : frames = [] := by
  cases frames with
  | nil => rfl
  | cons f fs => exact absurd arrived.1 (stream_cons_ne_nil f fs)

/-- One delivery: it ends with every frame dispatched exactly when its last
callback takes the last frame. -/
theorem run_dispatched (self : SessionPtr) (eventType : EventType) (frames : List (Frame pb))
    {actions : List Conn.Action} {t : Transfer}
    (ran : Transition.run (step pb) (init self eventType frames) actions = some t) (done : t.Done) :
    t.dispatched = frames.map (·.message) ↔
      Transition.Along (step pb) TakesLast (init self eventType frames) actions := by
  have initial := inv_init self eventType frames
  have undisturbed := (live_iff_undisturbed initial ran).mp done.live
  have inv := (Transition.always_of_along inv_step initial undisturbed).final ran
  rw [dispatched_iff inv done]
  by_cases arrived : (init self eventType frames).Arrived
  · obtain ⟨same, along⟩ := arrived_run initial arrived ran
    obtain rfl := init_arrived self eventType frames arrived
    exact iff_of_true (same.trans rfl) along
  · exact (takesLast_iff initial ran arrived done).symm

/-- The fate of the session is the same in two deliveries of one stream exactly
when neither has a callback while a request is handled and, if both come to
their end, the last callback of each takes the last frame. -/
theorem sameFate_iff (pb : Protobuf) (self : SessionPtr) (eventType : EventType)
    (frames : List (Frame pb)) (first second : List Conn.Action) (t u : Transfer)
    (ranFirst : Transition.run (step pb) (init self eventType frames) first = some t)
    (ranSecond : Transition.run (step pb) (init self eventType frames) second = some u) :
    SameFate frames t u ↔
      Transition.Along (step pb) Undisturbed (init self eventType frames) first ∧
      Transition.Along (step pb) Undisturbed (init self eventType frames) second ∧
      (t.Done → u.Done →
        Transition.Along (step pb) TakesLast (init self eventType frames) first ∧
        Transition.Along (step pb) TakesLast (init self eventType frames) second) := by
  have initial := inv_init self eventType frames
  rw [SameFate, live_iff_undisturbed initial ranFirst, live_iff_undisturbed initial ranSecond]
  refine and_congr_right fun _ => and_congr_right fun _ => ?_
  refine forall_congr' fun doneFirst => forall_congr' fun doneSecond => ?_
  rw [← run_dispatched self eventType frames ranFirst doneFirst,
    ← run_dispatched self eventType frames ranSecond doneSecond]
  constructor
  · rintro ⟨same, all⟩
    exact ⟨all, same ▸ all⟩
  · rintro ⟨allFirst, allSecond⟩
    exact ⟨allFirst.trans allSecond.symm, allFirst⟩

/-- A request for an identifier and the login with it. -/
def loginFrames : List (Frame WireFormat.protobuf) :=
  [.encoded (.phoneReq ⟨[49]⟩) (by decide), .encoded (.loginReq ⟨[49], 100000⟩) (by decide)]

/-- The bytes of a list of frames arrive in one chunk and the callback runs. -/
def delivery (frames : List (Frame WireFormat.protobuf)) : List Conn.Action :=
  [.arrive (stream frames), .reqCallback 0]

/-- A worker handles the request and its result is written. -/
def handlingRun : List Conn.Action :=
  [.take 0, .work 0 0 (.affected 1), .work 0 0 (.affected 1), .work 0 0 (.affected 1), .finish 0,
    .handleResult 0]

/-- The client waits for the answer before it sends the login. -/
def patientRun : List Conn.Action :=
  delivery (loginFrames.take 1) ++ handlingRun ++ delivery (loginFrames.drop 1) ++ handlingRun

/-- The login comes while the first request is handled. -/
def hastyRun : List Conn.Action := delivery (loginFrames.take 1) ++ delivery (loginFrames.drop 1)

theorem sameFate_iff_login :
    ∃ t u, Transition.run (step WireFormat.protobuf) (init ⟨4096, 0⟩ .kUnknown loginFrames)
        patientRun = some t ∧
      Transition.run (step WireFormat.protobuf) (init ⟨4096, 0⟩ .kUnknown loginFrames)
        hastyRun = some u ∧
      (SameFate loginFrames t u ↔
        Transition.Along (step WireFormat.protobuf) Undisturbed
          (init ⟨4096, 0⟩ .kUnknown loginFrames) patientRun ∧
        Transition.Along (step WireFormat.protobuf) Undisturbed
          (init ⟨4096, 0⟩ .kUnknown loginFrames) hastyRun ∧
        (t.Done → u.Done →
          Transition.Along (step WireFormat.protobuf) TakesLast
            (init ⟨4096, 0⟩ .kUnknown loginFrames) patientRun ∧
          Transition.Along (step WireFormat.protobuf) TakesLast
            (init ⟨4096, 0⟩ .kUnknown loginFrames) hastyRun)) :=
  ⟨_, _, rfl, rfl, sameFate_iff WireFormat.protobuf ⟨4096, 0⟩ .kUnknown loginFrames patientRun
    hastyRun _ _ rfl rfl⟩

theorem hasty_client_is_closed :
    ∃ t u, Transition.run (step WireFormat.protobuf) (init ⟨4096, 0⟩ .kUnknown loginFrames)
        patientRun = some t ∧
      Transition.run (step WireFormat.protobuf) (init ⟨4096, 0⟩ .kUnknown loginFrames)
        hastyRun = some u ∧
      t.Done ∧ t.dispatched = loginFrames.map (·.message) ∧ u.conn = .closed ∧
      ¬ SameFate loginFrames t u :=
  ⟨_, _, rfl, rfl, ⟨rfl, rfl, rfl⟩, rfl, rfl, fun same => same.2.1 rfl⟩

end Transfer
end Shbk2
