import Shbk2.Reassembly
import Shbk2.Trace

/-! The length of a body on its way from the header to `ParseFromArray`: the counts of
the reads add up to it, over any number of calls, and the last conversion is to `int`. -/
namespace Shbk2.MsgProxy

/-- The sum of the counts of the reads for a body. -/
def bodyRead : List Act → Nat
  | [] => 0
  | .read .parsingBody _ curt :: rest => curt + bodyRead rest
  | _ :: rest => bodyRead rest

/-- The calls of `ParseFromArray`. -/
def parses : List Act → List (Bytes × Int32)
  | [] => []
  | .parseFromArray data size :: rest => (data, size) :: parses rest
  | _ :: rest => parses rest

/-- The acts of the calls of `feed`. -/
def feedTrace (pb : Protobuf) (self : SessionPtr) : Session → List Bytes → List Act
  | _, [] => []
  | s, chunk :: chunks => packTrace pb (s.arrive chunk) ++
      match pack pb self (s.arrive chunk) with
      | .ok (none, t) => feedTrace pb self t chunks
      | _ => []

/-- The one `ParseFromArray` is given the length of the header, as a number that is not
negative, and it is what the reads returned. -/
def LengthSurvives (length : UInt32) (acts : List Act) : Prop :=
  ∃ data size, parses acts = [(data, size)] ∧ size.toInt = length.toNat ∧ 0 ≤ size.toInt ∧
    size.toInt = bodyRead acts

theorem bodyRead_append (first second : List Act) :
    bodyRead (first ++ second) = bodyRead first + bodyRead second := by
  induction first with
  | nil => exact (Nat.zero_add _).symm
  | cons act rest ih =>
    cases act with
    | read stat buffer curt =>
      cases stat <;> simp only [List.cons_append, bodyRead, ih, Nat.add_assoc]
    | setState | alloc | parseFromArray => exact ih

theorem parses_append (first second : List Act) :
    parses (first ++ second) = parses first ++ parses second := by
  induction first with
  | nil => rfl
  | cons act rest ih =>
    cases act with
    | parseFromArray data size => exact congrArg ((data, size) :: ·) ih
    | setState | alloc | read => exact ih

/-- The bytes of the body that are in the buffer. -/
def received (s : Session) : Nat :=
  match s.stat with
  | .parsingBody => s.reqBuf.last.toNat
  | _ => 0

/-- One call accounts for the bytes of the body it read. -/
structure Counts (pb : Protobuf) (owner : SessionPtr) (s : Session) : Prop where
  waits : ∀ t, pack pb owner s = .ok (none, t) →
    bodyRead (packTrace pb s) + received s = received t ∧ parses (packTrace pb s) = []
  completes : ∀ type body rest, packed (held s) = .frame type body rest →
    bodyRead (packTrace pb s) + received s = body.length ∧
      parses (packTrace pb s) = [(body, (UInt32.ofNat body.length).toInt32)]

section Pack
variable {pb : Protobuf} {self : SessionPtr} {s : Session} {size : UInt32} {bytes : Bytes}

theorem received_body (stat : s.stat = .parsingBody) (buffer : s.reqBuf = holding size bytes)
    (room : bytes.length ≤ size.toNat) : received s = bytes.length := by
  rw [received, stat, buffer]
  exact holding_last room

/-- A call without an event. -/
theorem Counts.of_waits {t : Session} (rep : Rep s) (parsing : s.stat ≠ .handling)
    (waits : pack pb self s = .ok (none, t))
    (read : bodyRead (packTrace pb s) + received s = received t)
    (none : parses (packTrace pb s) = []) : Counts pb self s := by
  have answers : Answers pb self s (held s) (pack pb self s) (packed (held s)) :=
    pack_answers rep parsing
  constructor
  · intro u packed
    rw [waits] at packed
    obtain rfl := (Prod.mk.inj (Except.ok.inj packed)).2
    exact ⟨read, none⟩
  · intro type body rest parsed
    rw [parsed, waits] at answers
    obtain ⟨parse, u, _, result, _⟩ := answers
    exact absurd (Prod.mk.inj (Except.ok.inj result)).1.symm (Option.some_ne_none _)

/-- A call that throws. -/
theorem Counts.of_error {e : PackError} (rep : Rep s) (parsing : s.stat ≠ .handling)
    (thrown : pack pb self s = .error e) : Counts pb self s := by
  have answers : Answers pb self s (held s) (pack pb self s) (packed (held s)) :=
    pack_answers rep parsing
  constructor
  · intro u packed
    rw [thrown] at packed
    contradiction
  · intro type body rest parsed
    rw [parsed, thrown] at answers
    obtain ⟨parse, u, _, result, _⟩ := answers
    contradiction

/-- A call that completes a frame. -/
theorem Counts.of_frame {type : EventType} {body rest : Bytes} (rep : Rep s)
    (parsing : s.stat ≠ .handling) (frame : packed (held s) = .frame type body rest)
    (read : bodyRead (packTrace pb s) + received s = body.length)
    (calls : parses (packTrace pb s) = [(body, (UInt32.ofNat body.length).toInt32)]) :
    Counts pb self s := by
  have answers : Answers pb self s (held s) (pack pb self s) (packed (held s)) :=
    pack_answers rep parsing
  constructor
  · intro u packed
    rw [frame, packed] at answers
    obtain ⟨parse, v, _, result, _⟩ := answers
    exact absurd (Prod.mk.inj (Except.ok.inj result)).1.symm (Option.some_ne_none _)
  · intro other data behind parsed
    obtain ⟨rfl, rfl, rfl⟩ := Parsed.frame.inj (frame.symm.trans parsed)
    exact ⟨read, calls⟩

theorem counts_body (stat : s.stat = .parsingBody) (buffer : s.reqBuf = holding size bytes)
    (fits : bytes.length < size.toNat ∨ size = 0 ∧ bytes = []) : Counts pb self s := by
  have room := room_of_fits fits
  have rep : Rep s := .body size bytes stat buffer fits
  have parsing : s.stat ≠ .handling := by simp [stat]
  have before := received_body stat buffer room
  have lengths : (bytes ++ s.bufev.input).length = bytes.length + s.bufev.input.length :=
    List.length_append
  by_cases nothing : s.bufev.input = []
  · have acts : packTrace pb s = [] := packTrace_body_idle stat nothing
    apply Counts.of_waits rep parsing (pack_body_idle stat nothing) <;> rw [acts]
    · exact Nat.zero_add _
    · rfl
  · have some : bytes ++ s.bufev.input ≠ [] := by simp [nothing]
    have trace := packTrace_body_read pb stat buffer room nothing
    by_cases short : (bytes ++ s.bufev.input).length < size.toNat
    · rw [if_pos (.inl short)] at trace
      apply Counts.of_waits rep parsing (pack_body_short stat buffer room nothing short) <;>
        rw [trace]
      · have after := received_body (s := { s with
          bufev := { s.bufev with input := [] }
          reqBuf := holding size (bytes ++ s.bufev.input) }) stat rfl (Nat.le_of_lt short)
        rw [before, after]
        simp only [bodyRead]
        omega
      · rfl
    · by_cases request : s.eventType.IsRequest
      · have frame : packed (held s) = .frame s.eventType
            ((bytes ++ s.bufev.input).take size.toNat)
            ((bytes ++ s.bufev.input).drop size.toNat) := by
          rw [held_body stat buffer, packed_header _ _ some, oneShot_header, if_neg short,
            if_neg (not_not.mpr request)]
        have length : ((bytes ++ s.bufev.input).take size.toNat).length = size.toNat := by
          rw [List.length_take]
          omega
        rw [if_neg (not_or.mpr ⟨short, not_not.mpr request⟩)] at trace
        apply Counts.of_frame rep parsing frame <;> rw [trace, length]
        · rw [before]
          simp only [bodyRead]
          omega
        · rw [UInt32.ofNat_toNat]
          rfl
      · have thrown : pack pb self s = .error (.exception "unknown event type") := by
          rw [pack_body_complete stat buffer room nothing short,
            pb.parseFromArray_none.mpr request]
        exact .of_error rep parsing thrown

/-- A call that comes down to the call in a later state of the same parse. -/
theorem Counts.from {t : Session} {acts : List Act} (counts : Counts pb self t)
    (same : pack pb self s = pack pb self t) (trace : packTrace pb s = acts ++ packTrace pb t)
    (kept : held t = held s) (nothing : bodyRead acts + received s = received t)
    (none : parses acts = []) : Counts pb self s := by
  have total : bodyRead (packTrace pb s) + received s =
      bodyRead (packTrace pb t) + received t := by
    rw [trace, bodyRead_append]
    omega
  have calls : parses (packTrace pb s) = parses (packTrace pb t) := by
    rw [trace, parses_append, none, List.nil_append]
  constructor
  · intro u packed
    rw [total, calls]
    exact counts.waits u (same ▸ packed)
  · intro type body rest parsed
    rw [total, calls]
    exact counts.completes type body rest (kept ▸ parsed)

theorem counts_head (stat : s.stat = .parsingHead) (buffer : s.reqBuf = holding headerSize bytes)
    (partly : bytes.length < 10) : Counts pb self s := by
  have rep : Rep s := .head bytes stat buffer partly
  have parsing : s.stat ≠ .handling := by simp [stat]
  have before : received s = 0 := by rw [received, stat]
  by_cases short : (bytes ++ s.bufev.input).length < 10
  · have acts := packTrace_head_short pb stat buffer short
    apply Counts.of_waits rep parsing (pack_head_short stat buffer short) <;> rw [acts]
    · rw [before, received, stat]
      rfl
    · rfl
  · have trace := packTrace_head_complete pb stat buffer partly short
    by_cases identified : (bytes ++ s.bufev.input).take 4 = headerCont
    · rw [if_pos identified] at trace
      have call : pack pb self s = pack pb self (headed s (bytes ++ s.bufev.input)) := by
        rw [pack_head_complete stat buffer partly short, if_pos identified]
      have kept : held (headed s (bytes ++ s.bufev.input)) = held s := by
        rw [held_head stat buffer]
        exact held_headed (by omega) identified
      have counts : Counts pb self (headed s (bytes ++ s.bufev.input)) :=
        counts_body rfl rfl (empty_fits _)
      have head : packTrace pb s = [.read .parsingHead (holding headerSize bytes)
          (10 - bytes.length), .setState .parsingBody] ++ _ := trace
      exact counts.from call head kept (by rw [before]; rfl) rfl
    · have thrown : pack pb self s = .error (.exception "unknown identifier") := by
        rw [pack_head_complete stat buffer partly short, if_neg identified]
      exact .of_error rep parsing thrown

theorem counts (rep : Rep s) (parsing : s.stat ≠ .handling) : Counts pb self s := by
  cases rep with
  | head bytes stat buffer partly => exact counts_head stat buffer partly
  | body size bytes stat buffer fits => exact counts_body stat buffer fits
  | idle idle buffer =>
    have waiting : s.stat = .waitingRequest := by simpa only [parsing, or_false] using idle
    have counts : Counts pb self (started s) := counts_head rfl rfl (by decide)
    have start : packTrace pb s = [.setState .parsingHead, .alloc true] ++ _ :=
      packTrace_waiting pb waiting buffer
    exact counts.from (pack_waiting pb self waiting buffer) start (held_started waiting)
      (by rw [received, waiting]; rfl) rfl

/-- The invariant of the chunk loop: what the reads returned is what the buffer holds. -/
theorem counts_feed {t : Session} {chunks : List Bytes} (rep : Rep s) (parsing : s.stat ≠ .handling)
    (fed : feed pb self s chunks = some t) :
    bodyRead (feedTrace pb self s chunks) + received s = received t ∧
      parses (feedTrace pb self s chunks) = [] := by
  induction chunks generalizing s with
  | nil =>
    obtain rfl := Option.some.inj fed
    exact ⟨Nat.zero_add _, rfl⟩
  | cons chunk chunks ih =>
    have call : Counts pb self (s.arrive chunk) :=
      counts (NetGate.rep_arrive rep chunk) parsing
    have answers : Answers pb self (s.arrive chunk) (held s ++ chunk) _ _ :=
      NetGate.arrive_answers rep parsing chunk
    simp only [feed] at fed
    split at fed
    · rename_i u result
      rw [result] at answers
      obtain ⟨rep, _, still⟩ := answers_quiet answers
      obtain ⟨first, none⟩ := call.waits u result
      obtain ⟨later, others⟩ := ih rep still fed
      simp only [feedTrace, result, bodyRead_append, parses_append, none, others]
      have unread : received (s.arrive chunk) = received s := rfl
      refine ⟨?_, rfl⟩
      omega
    · contradiction

/-- The frame that the last of several calls completes. -/
theorem counts_frame {t : Session} {chunks : List Bytes} {last body rest : Bytes}
    {type : EventType} {length : UInt32} (rep : Rep s) (waiting : s.stat = .waitingRequest)
    (fed : feed pb self s chunks = some t) (request : type.IsRequest)
    (sized : body.length = length.toNat) (positive : 1 ≤ length.toNat)
    (all : s.bufev.input ++ (chunks ++ [last]).flatten = header type length ++ (body ++ rest)) :
    parses (feedTrace pb self s chunks ++ packTrace pb (t.arrive last)) =
        [(body, length.toInt32)] ∧
      bodyRead (feedTrace pb self s chunks ++ packTrace pb (t.arrive last)) = length.toNat := by
  have parsing : s.stat ≠ .handling := by simp [waiting]
  obtain ⟨after, still, kept⟩ := feed_held rep parsing fed
  obtain ⟨before, none⟩ := counts_feed rep parsing fed
  have nothing : received s = 0 := by rw [received, waiting]
  have whole : held (t.arrive last) = header type length ++ (body ++ rest) := by
    rw [NetGate.held_arrive, kept, held_idle (.inl waiting), ← all, List.flatten_append,
      List.flatten_singleton, List.append_assoc]
  have some : body ++ rest ≠ [] := by
    intro empty
    rw [(List.append_eq_nil_iff.mp empty).1] at sized
    exact absurd positive (by rw [← sized]; decide)
  have frame : packed (held (t.arrive last)) = .frame type body rest := by
    rw [whole, packed_header type length some, oneShot_header, if_neg, if_neg (not_not.mpr request),
      ← sized, List.take_left, List.drop_left]
    rw [List.length_append]
    omega
  have call : Counts pb self (t.arrive last) := counts (NetGate.rep_arrive after last) still
  obtain ⟨total, calls⟩ := call.completes _ _ _ frame
  have unread : received (t.arrive last) = received t := rfl
  rw [parses_append, bodyRead_append, none, calls, sized, UInt32.ofNat_toNat]
  refine ⟨rfl, ?_⟩
  omega

theorem toInt_toInt32 (n : UInt32) : n.toInt32.toInt = n.toNat ↔ n.toNat < 2 ^ 31 := by
  have bits : n.toInt32.toInt = n.toBitVec.toInt := rfl
  have value : n.toBitVec.toNat = n.toNat := rfl
  have bound := n.toNat_lt
  rw [bits, BitVec.toInt_eq_toNat_cond, value]
  split <;> omega

end Pack

/-- In every chunking, the length of a body survives exactly when it is an `int`. -/
theorem lengthSurvives_iff (pb : Protobuf) (self : SessionPtr) (eventType : EventType)
    (o : Object) (inFlight : List Item)
    (reached : Transition.Reachable (Conn.step pb) (Conn.init self eventType) (.live o inFlight))
    (waiting : o.session.stat = .waitingRequest) (type : EventType) (request : type.IsRequest)
    (length : UInt32) (positive : 1 ≤ length.toNat) (body rest : Bytes)
    (sized : body.length = length.toNat) (chunks : List Bytes) (last : Bytes)
    (all : o.session.bufev.input ++ (chunks ++ [last]).flatten =
      header type length ++ (body ++ rest))
    (t : Session) (fed : feed pb o.self o.session chunks = some t) :
    LengthSurvives length
        (feedTrace pb o.self o.session chunks ++ packTrace pb (t.arrive last)) ↔
      length.toNat < 2 ^ 31 := by
  have rep : Rep o.session := Conn.rep_of_reachable reached
  obtain ⟨calls, total⟩ := counts_frame rep waiting fed request sized positive all
  rw [LengthSurvives, calls, total]
  constructor
  · rintro ⟨data, size, call, equal, _⟩
    obtain ⟨_, rfl⟩ := Prod.mk.inj (List.singleton_inj.mp call)
    exact (toInt_toInt32 length).mp equal
  · intro fits
    have equal := (toInt_toInt32 length).mpr fits
    exact ⟨body, length.toInt32, rfl, equal, by omega, equal⟩

/-- A body of two bytes, cut inside its header and before its last byte. -/
theorem lengthSurvives_iff_cut :
    ∃ t, feed WireFormat.protobuf ⟨4096, 0⟩ (.new .kUnknown)
        [ascii "SHBK" ++ [3], [0, 2, 0, 0, 0, 16]] = some t ∧
      (LengthSurvives 2
          (feedTrace WireFormat.protobuf ⟨4096, 0⟩ (.new .kUnknown)
            [ascii "SHBK" ++ [3], [0, 2, 0, 0, 0, 16]] ++
              packTrace WireFormat.protobuf (t.arrive [1])) ↔
        (2 : UInt32).toNat < 2 ^ 31) :=
  ⟨_, rfl, lengthSurvives_iff WireFormat.protobuf ⟨4096, 0⟩ .kUnknown
    (NetGate.listenerCallback ⟨4096, 0⟩ .kUnknown) [] (.refl _) rfl .kLoginReq (by decide) 2
    (by decide) [16, 1] [] rfl [ascii "SHBK" ++ [3], [0, 2, 0, 0, 0, 16]] [1] (by decide) _ rfl⟩

theorem parses_whole {pb : Protobuf} {type : EventType} {length : UInt32} {body : Bytes}
    (request : type.IsRequest) (sized : body.length = length.toNat)
    (positive : 1 ≤ length.toNat) :
    parses (packTrace pb ((Session.new .kUnknown).arrive (header type length ++ body))) =
      [(body, length.toInt32)] := by
  have rep : Rep (Session.new .kUnknown) := .idle (.inl rfl) rfl
  have fed : feed pb ⟨0, 0⟩ (.new .kUnknown) [] = some (.new .kUnknown) := rfl
  have all : (Session.new .kUnknown).bufev.input ++ ([] ++ [header type length ++ body]).flatten =
      header type length ++ (body ++ []) := by
    simp [Session.new, Bufferevent.new]
  exact (counts_frame rep rfl fed request sized positive all).1

/-- A body of two to the thirty-one bytes is parsed with a negative size. -/
theorem large_body_negative :
    ∃ data size, parses (packTrace WireFormat.protobuf ((Session.new .kUnknown).arrive
        (header .kPhoneReq 0x80000000 ++ List.replicate (2 ^ 31) 0))) = [(data, size)] ∧
      size.toInt = -2 ^ 31 :=
  ⟨_, _, parses_whole (by decide) List.length_replicate (by decide), by decide⟩

end Shbk2.MsgProxy
