import Shbk2.Dangling

/-! A byte stream in any chunking: after each chunk the incremental parser has
seen exactly the bytes so far, so the first call that decides anything decides
what the one-shot parser makes of all of them. A session that the server has put
back to waiting before its buffer was empty does not begin with the first byte. -/
namespace Shbk2.MsgProxy

/-- Chunks are appended to the input one after the other, and after each of them
`pack` returns nullptr. -/
def feed (pb : Protobuf) (self : SessionPtr) : Session → List Bytes → Option Session
  | s, [] => some s
  | s, chunk :: chunks =>
    match pack pb self (s.arrive chunk) with
    | .ok (none, t) => feed pb self t chunks
    | _ => none

/-- The answer of `pack` is the result of the one-shot parser. A frame is parsed
from its body and its length, and what follows it stays in the input. -/
def Gives (pb : Protobuf) (self : SessionPtr)
    (answer : Except PackError (Option ReqEvent × Session)) : Parsed → Prop
  | .incomplete => ∃ t, answer = .ok (none, t)
  | .unknownIdentifier => answer = .error (.exception "unknown identifier")
  | .unknownType => answer = .error (.exception "unknown event type")
  | .frame type body rest => ∃ (parse : Bytes → Int32 → Bool × Request) (size : Int32)
      (message : Request) (t : Session), pb.parseFromArray type = some parse ∧
      size.toInt = body.length ∧ message = (parse body size).2 ∧ message.type = type ∧
      answer = .ok (some ⟨self, message⟩, t) ∧ t.bufev.input = rest ∧ t.reqBuf = .empty

section Feed
variable {pb : Protobuf} {self : SessionPtr}

/-- An answer that is no event and no error keeps the parser state and the bytes. -/
theorem answers_quiet {s t : Session} {bytes : Bytes} {parsed : Parsed}
    (answers : Answers pb self s bytes (.ok (none, t)) parsed) :
    Rep t ∧ held t = bytes ∧ t.stat ≠ .handling := by
  cases parsed with
  | incomplete =>
    obtain ⟨u, result, rep, kept, stat, _⟩ := answers
    cases result
    exact ⟨rep, kept, by rcases stat with head | body <;> simp [*]⟩
  | unknownIdentifier | unknownType =>
    exact nomatch (answers : Except.ok (none, t) = _)
  | frame type body rest =>
    obtain ⟨parse, u, found, result, _⟩ := answers
    cases result

/-- The invariant of the chunk loop: the held bytes are all bytes so far. -/
theorem feed_held {s t : Session} {chunks : List Bytes} (rep : Rep s) (parsing : s.stat ≠ .handling)
    (fed : feed pb self s chunks = some t) :
    Rep t ∧ t.stat ≠ .handling ∧ held t = held s ++ chunks.flatten := by
  induction chunks generalizing s with
  | nil =>
    obtain rfl := Option.some.inj fed
    exact ⟨rep, parsing, by rw [List.flatten_nil, List.append_nil]⟩
  | cons chunk chunks ih =>
    have answers : Answers pb self (s.arrive chunk) (held s ++ chunk) _ _ :=
      NetGate.arrive_answers rep parsing chunk
    simp only [feed] at fed
    split at fed
    · rename_i u result
      rw [result] at answers
      obtain ⟨rep, kept, parsing⟩ := answers_quiet answers
      obtain ⟨rep, parsing, grown⟩ := ih rep parsing fed
      refine ⟨rep, parsing, ?_⟩
      rw [grown, kept, List.flatten_cons, List.append_assoc]
    · contradiction

end Feed

/-- A header that declares a body is incomplete on its own, so `pack` and the
one-shot parser agree. -/
theorem packed_eq_oneShot {bytes : Bytes}
    (sized : 10 ≤ bytes.length → bytes.take 4 = headerCont → 0 < (declaredSize bytes).toNat) :
    packed bytes = oneShot bytes := by
  by_cases only : bytes.length = 10 ∧ bytes.take 4 = headerCont
  · obtain ⟨ten, identified⟩ := only
    have positive := sized (Nat.le_of_eq ten.symm) identified
    rw [packed, if_pos ⟨ten, identified⟩, oneShot, if_neg (by omega), if_neg (by simp [identified]),
      if_pos (by omega)]
  · rw [packed, if_neg only]

theorem oneShot_frame {bytes body rest : Bytes} {type : EventType}
    (parsed : oneShot bytes = .frame type body rest) :
    10 ≤ bytes.length ∧ bytes.take 4 = headerCont ∧ type = declaredType bytes ∧ type.IsRequest ∧
      body.length = (declaredSize bytes).toNat ∧
      bytes = header type (declaredSize bytes) ++ (body ++ rest) := by
  unfold oneShot at parsed
  split at parsed
  · contradiction
  split at parsed
  · contradiction
  split at parsed
  · contradiction
  split at parsed
  · contradiction
  rename_i enough identified complete request
  have identified : bytes.take 4 = headerCont := not_not.mp identified
  obtain ⟨rfl, rfl, rfl⟩ := Parsed.frame.inj parsed
  refine ⟨by omega, identified, rfl, not_not.mp request, ?_, ?_⟩
  · rw [List.length_take, List.length_drop]
    omega
  · rw [header_declared (by omega) identified, ← List.drop_drop, List.take_append_drop,
      List.take_append_drop]

theorem gives_of_answers {pb : Protobuf} {self : SessionPtr} {s : Session} {bytes : Bytes}
    {answer : Except PackError (Option ReqEvent × Session)}
    (bounded : 10 ≤ bytes.length → bytes.take 4 = headerCont → (declaredSize bytes).toNat < 2 ^ 31)
    (answers : Answers pb self s bytes answer (oneShot bytes)) :
    Gives pb self answer (oneShot bytes) := by
  cases parsed : oneShot bytes with
  | incomplete =>
    rw [parsed] at answers
    obtain ⟨t, result, _⟩ := answers
    exact ⟨t, result⟩
  | unknownIdentifier | unknownType =>
    rw [parsed] at answers
    exact answers
  | frame type body rest =>
    rw [parsed] at answers
    obtain ⟨enough, identified, _, _, length, _⟩ := oneShot_frame parsed
    have fits : body.length < 2 ^ 31 := length ▸ bounded enough identified
    obtain ⟨parse, t, found, result, _, buffer, input, _⟩ := answers
    exact ⟨parse, _, _, t, found, toInt_size fits, rfl, pb.parseFromArray_type found _ _, result,
      input, buffer⟩

/-- From a session that is waiting for a request, for every chunking. -/
theorem gives_of_feed {pb : Protobuf} {self : SessionPtr} {s t : Session} {chunks : List Bytes}
    {last bytes : Bytes} (rep : Rep s) (waiting : s.stat = .waitingRequest)
    (fed : feed pb self s chunks = some t)
    (all : bytes = s.bufev.input ++ (chunks ++ [last]).flatten)
    (sized : 10 ≤ bytes.length → bytes.take 4 = headerCont →
      1 ≤ (declaredSize bytes).toNat ∧ (declaredSize bytes).toNat < 2 ^ 31) :
    Gives pb self (pack pb self (t.arrive last)) (oneShot bytes) := by
  obtain ⟨rep, parsing, kept⟩ := feed_held rep (by simp [waiting]) fed
  have whole : held t ++ last = bytes := by
    rw [kept, held_idle (.inl waiting), all, List.flatten_append,
      List.flatten_singleton, List.append_assoc]
  have answers : Answers pb self (t.arrive last) (held t ++ last) _ _ :=
    NetGate.arrive_answers rep parsing last
  rw [whole, packed_eq_oneShot fun enough identified => (sized enough identified).1] at answers
  exact gives_of_answers (fun enough identified => (sized enough identified).2) answers

end Shbk2.MsgProxy

namespace Shbk2.World
open MsgProxy Transition

/-- From every session that waits for a request, with what is in its input, and for all
chunks that follow: where the calls of `pack` before the last one decide nothing, the last
one gives the result of the one-shot parser for all bytes. -/
def Reassembles (pb : Protobuf) (w : World) : Prop :=
  ∀ addr o, w.heap addr = some o → o.session.stat = .waitingRequest →
    ∀ (chunks : List Bytes) (last : Bytes) (t : Session),
      feed pb o.self o.session chunks = some t →
      ∀ bytes, bytes = o.session.bufev.input ++ (chunks ++ [last]).flatten →
        (10 ≤ bytes.length → bytes.take 4 = headerCont →
          1 ≤ (declaredSize bytes).toNat ∧ (declaredSize bytes).toNat < 2 ^ 31) →
        Gives pb o.self (pack pb o.self (t.arrive last)) (oneShot bytes)

/-- The incremental parser refines the one-shot parser in every state of the runs that
delete no session while its request is handled. -/
theorem reassembles_of_spares (pb : Protobuf) (db : Database) (workers : Nat) (table : List Bytes)
    (actions : List Action)
    (spares : Along (step pb db) Spares (init workers table) actions) :
    Always (step pb db) (Reassembles pb) (init workers table) actions := by
  refine (safe_run spares).mono ?_
  intro w safe addr o lives waiting chunks last t fed bytes all sized
  exact gives_of_feed (safe.1.inv lives).rep waiting fed all sized

/-- A session that was answered before is sent a login frame cut inside its identifier
and its body, followed by one more byte. -/
theorem reassembles_of_spares_cut :
    ∃ w o t, run (step WireFormat.protobuf ⟨fun _ _ => none⟩) (init 1 []) answeredRun = some w ∧
      w.heap 4096 = some o ∧
      feed WireFormat.protobuf o.self o.session
        [ascii "SH", ascii "BK" ++ [3, 0, 4, 0, 0, 0, 10]] = some t ∧
      Gives WireFormat.protobuf o.self (pack WireFormat.protobuf o.self (t.arrive [0, 16, 0, 83]))
        (oneShot (ascii "SHBK" ++ [3, 0, 4, 0, 0, 0, 10, 0, 16, 0, 83])) := by
  obtain ⟨w, o, t, ran, lives, waiting, input, fed⟩ : ∃ w o t,
      run (step WireFormat.protobuf ⟨fun _ _ => none⟩) (init 1 []) answeredRun = some w ∧
        w.heap 4096 = some o ∧ o.session.stat = .waitingRequest ∧ o.session.bufev.input = [] ∧
        feed WireFormat.protobuf o.self o.session
          [ascii "SH", ascii "BK" ++ [3, 0, 4, 0, 0, 0, 10]] = some t :=
    ⟨_, _, _, rfl, rfl, rfl, rfl, rfl⟩
  have always := reassembles_of_spares WireFormat.protobuf ⟨fun _ _ => none⟩ 1 [] answeredRun
    answeredRun_spares
  refine ⟨w, o, t, ran, lives, fed, always.final ran 4096 o lives waiting
    [ascii "SH", ascii "BK" ++ [3, 0, 4, 0, 0, 0, 10]] [0, 16, 0, 83] t fed _ ?_ (by decide)⟩
  rw [input]
  decide

/-- The answer to a client that is gone is written to the session of the next one,
which is waiting for the rest of its header. -/
def staleRun : List Action :=
  [.accept 4096 .kUnknown, .arrive 4096 (ascii "SHBK" ++ [1, 0, 2, 0, 0, 0, 10, 0]),
    .reqCallback 4096, .errCallback 4096 0x11, .accept 4096 .kUnknown, .take 0,
    .work 0 0 ⟨[], 0⟩ .executed, .work 0 0 ⟨[], 0⟩ .executed, .work 0 0 ⟨[], 0⟩ .executed,
    .finish 0, .arrive 4096 (ascii "SHB"), .reqCallback 4096, .handleResults]

/-- The session waits for a request, with three bytes of the one before in its buffer. -/
theorem staleRun_waits :
    ∃ w o, run (step WireFormat.protobuf ⟨fun _ _ => none⟩) (init 1 []) staleRun = some w ∧
      w.heap 4096 = some o ∧ o.session.stat = .waitingRequest ∧ o.session.bufev.input = [] ∧
      o.session.reqBuf = holding headerSize (ascii "SHB") ∧
      pack WireFormat.protobuf o.self (o.session.arrive
        (ascii "SHBK" ++ [1, 0, 2, 0, 0, 0, 10, 0])) = .error (.exception "unknown identifier") :=
  ⟨_, _, rfl, rfl, rfl, rfl, rfl, rfl⟩

/-- A whole request is sent to it, and thrown away. -/
theorem stale_bytes_misread :
    ∃ w o, run (step WireFormat.protobuf ⟨fun _ _ => none⟩) (init 1 []) staleRun = some w ∧
      w.heap 4096 = some o ∧ o.session.stat = .waitingRequest ∧
      pack WireFormat.protobuf o.self (o.session.arrive
        (ascii "SHBK" ++ [1, 0, 2, 0, 0, 0, 10, 0])) = .error (.exception "unknown identifier") ∧
      oneShot (ascii "SHBK" ++ [1, 0, 2, 0, 0, 0, 10, 0]) = .frame .kPhoneReq [10, 0] [] ∧
      ¬ Reassembles WireFormat.protobuf w := by
  obtain ⟨w, o, ran, lives, waiting, input, _, thrown⟩ := staleRun_waits
  have frame : oneShot (ascii "SHBK" ++ [1, 0, 2, 0, 0, 0, 10, 0]) =
      .frame .kPhoneReq [10, 0] [] := by decide
  refine ⟨w, o, ran, lives, waiting, thrown, frame, fun reassembles => ?_⟩
  have gives := reassembles 4096 o lives waiting [] (ascii "SHBK" ++ [1, 0, 2, 0, 0, 0, 10, 0])
    o.session rfl _ rfl (by rw [input]; decide)
  rw [thrown, input, List.nil_append, List.nil_append, List.flatten_singleton, frame] at gives
  obtain ⟨_, _, _, _, _, _, _, _, parsed, _⟩ := gives
  contradiction

end Shbk2.World
