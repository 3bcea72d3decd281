import Shbk2.MsgProxy

/-! What the incremental parser computes, as a function of the bytes held for the
session: those consumed into the parse in progress, then those still in the
input. The one-shot parser below is the specification; one call of `pack` gives
its result on the held bytes, from every state the parser can be in. -/
namespace Shbk2.MsgProxy

def header (type : EventType) (size : UInt32) : Bytes :=
  headerCont ++ (LittleEndian.encode 2 type.value.toNat ++ LittleEndian.encode 4 size.toNat)

def declaredType (bytes : Bytes) : EventType :=
  ⟨UInt16.ofNat (LittleEndian.decode ((bytes.drop 4).take 2))⟩

def declaredSize (bytes : Bytes) : UInt32 :=
  UInt32.ofNat (LittleEndian.decode ((bytes.drop 6).take 4))

inductive Parsed where
  | incomplete
  | unknownIdentifier
  | unknownType
  | frame (type : EventType) (body rest : Bytes)
  deriving DecidableEq

/-- The parser of a whole byte sequence. -/
def oneShot (bytes : Bytes) : Parsed :=
  if bytes.length < 10 then .incomplete
  else if bytes.take 4 ≠ headerCont then .unknownIdentifier
  else if bytes.length < 10 + (declaredSize bytes).toNat then .incomplete
  else if ¬ (declaredType bytes).IsRequest then .unknownType
  else .frame (declaredType bytes) ((bytes.drop 10).take (declaredSize bytes).toNat)
    (bytes.drop (10 + (declaredSize bytes).toNat))

/-- What one call of `pack` makes of the held bytes: the one-shot result, except
that a header with nothing behind it is not looked at, whatever size it declares. -/
def packed (bytes : Bytes) : Parsed :=
  if bytes.length = 10 ∧ bytes.take 4 = headerCont then .incomplete else oneShot bytes

theorem header_length (type : EventType) (size : UInt32) : (header type size).length = 10 := by
  simp [header, headerCont, ascii]

theorem header_take (type : EventType) (size : UInt32) (rest : Bytes) :
    (header type size ++ rest).take 4 = headerCont := by
  simp [header, headerCont, ascii]

theorem header_type (type : EventType) (size : UInt32) (rest : Bytes) :
    declaredType (header type size ++ rest) = type := by
  have cells : ((header type size ++ rest).drop 4).take 2 =
      LittleEndian.encode 2 type.value.toNat := by
    simp [header, headerCont, ascii]
  rw [declaredType, cells, LittleEndian.decode_encode type.value.toNat_lt, UInt16.ofNat_toNat]

theorem header_size (type : EventType) (size : UInt32) (rest : Bytes) :
    declaredSize (header type size ++ rest) = size := by
  have cells : ((header type size ++ rest).drop 6).take 4 =
      LittleEndian.encode 4 size.toNat := by
    simp [header, headerCont, ascii]
  rw [declaredSize, cells, LittleEndian.decode_encode size.toNat_lt, UInt32.ofNat_toNat]

/-- The ten bytes of a header are determined by the two numbers read from them. -/
theorem header_declared {bytes : Bytes} (enough : 10 ≤ bytes.length)
    (identified : bytes.take 4 = headerCont) :
    header (declaredType bytes) (declaredSize bytes) = bytes.take 10 := by
  have typeLength : ((bytes.drop 4).take 2).length = 2 := by simp; omega
  have sizeLength : ((bytes.drop 6).take 4).length = 4 := by simp; omega
  have typeBound : LittleEndian.decode ((bytes.drop 4).take 2) < UInt16.size :=
    LittleEndian.decode_lt typeLength
  have sizeBound : LittleEndian.decode ((bytes.drop 6).take 4) < UInt32.size :=
    LittleEndian.decode_lt sizeLength
  have typeBytes : LittleEndian.encode 2 (declaredType bytes).value.toNat =
      (bytes.drop 4).take 2 := by
    rw [declaredType, UInt16.toNat_ofNat_of_lt' typeBound, LittleEndian.encode_decode typeLength]
  have sizeBytes : LittleEndian.encode 4 (declaredSize bytes).toNat = (bytes.drop 6).take 4 := by
    rw [declaredSize, UInt32.toNat_ofNat_of_lt' sizeBound, LittleEndian.encode_decode sizeLength]
  rw [header, typeBytes, sizeBytes, ← identified]
  calc bytes.take 4 ++ ((bytes.drop 4).take 2 ++ (bytes.drop 6).take 4)
      = bytes.take 4 ++ ((bytes.drop 4).take 2 ++ ((bytes.drop 4).drop 2).take 4) := by
        rw [List.drop_drop]
    _ = bytes.take 4 ++ (bytes.drop 4).take (2 + 4) := by rw [← List.take_add]
    _ = bytes.take 10 := by rw [← List.take_add]

/-- A buffer of `size` bytes into which exactly `bytes` have been read. -/
def holding (size : UInt32) (bytes : Bytes) : Buffer :=
  ⟨size, UInt32.ofNat bytes.length, some (Block.filled size.toNat bytes)⟩

section Holding
variable {size : UInt32} {bytes : Bytes}

theorem holding_last (fits : bytes.length ≤ size.toNat) :
    (holding size bytes).last.toNat = bytes.length := by
  have bound : size.toNat < UInt32.size := size.toNat_lt
  exact UInt32.toNat_ofNat_of_lt' (by omega)

theorem holding_isEnough (fits : bytes.length ≤ size.toNat) :
    (holding size bytes).isEnough = decide (bytes.length = size.toNat) := by
  simp only [Buffer.isEnough, beq_eq_decide, decide_eq_decide]
  rw [← UInt32.toNat_inj, holding_last fits]
  rfl

theorem holding_load (fits : bytes.length ≤ size.toNat) {offset count : Nat}
    (within : offset + count ≤ bytes.length) :
    (holding size bytes).load offset count = some ((bytes.drop offset).take count) := by
  simp only [Buffer.load, holding, Option.bind_some]
  exact Block.load_filled fits within

theorem holding_alloc : (Buffer.empty.alloc size).2 = holding size [] := by
  simp [Buffer.empty, Buffer.alloc, holding, Block.filled_nil]

theorem holding_realloc (next : UInt32) : (holding size bytes).realloc next = holding next [] := by
  simp [Buffer.realloc, holding, Block.filled_nil]

theorem holding_reset : (holding size bytes).reset = .empty := rfl

/-- A read takes what fits in the buffer from the front of the input; neither the
request size nor the position wraps, and the bytes stored lie in the block. -/
theorem readMore_holding {s : Session} (buffer : s.reqBuf = holding size bytes)
    (fits : bytes.length ≤ size.toNat) :
    readMore s = some { s with
      bufev := { s.bufev with input := s.bufev.input.drop (size.toNat - bytes.length) }
      reqBuf := holding size (bytes ++ s.bufev.input.take (size.toNat - bytes.length)) } := by
  have bound := size.toNat_lt
  have last : (holding size bytes).last.toNat = bytes.length := holding_last fits
  have request : (size - (holding size bytes).last).toNat = size.toNat - bytes.length := by
    rw [UInt32.toNat_sub_of_le _ _ (UInt32.le_iff_toNat_le.mpr (by rw [last]; exact fits)), last]
  have taken : (s.bufev.input.take (size.toNat - bytes.length)).length ≤
      size.toNat - bytes.length := List.length_take_le _ _
  have stored : Block.store (Block.filled size.toNat bytes) bytes.length
      (s.bufev.input.take (size.toNat - bytes.length)) =
        some (Block.filled size.toNat (bytes ++ s.bufev.input.take (size.toNat - bytes.length))) :=
    Block.store_filled (by omega)
  have position : (holding size bytes).last +
      UInt32.ofNat (s.bufev.input.take (size.toNat - bytes.length)).length =
      UInt32.ofNat (bytes ++ s.bufev.input.take (size.toNat - bytes.length)).length := by
    rw [List.length_append, UInt32.ofNat_add]
    rfl
  have total : (holding size bytes).total = size := rfl
  have buf : (holding size bytes).buf = some (Block.filled size.toNat bytes) := rfl
  simp only [readMore, buffer, buf, total, Option.bind_some, Bufferevent.read, request, last,
    stored, Option.map_some, Buffer.incrementLast, position]
  rfl

end Holding

/-- On texts of one length without a terminator the comparison decides equality. -/
theorem strncmp_eq_zero {a b : Bytes} (same : a.length = b.length) (text : 0 ∉ b) :
    strncmp a b b.length = 0 ↔ a = b := by
  induction b generalizing a with
  | nil =>
    obtain rfl := List.length_eq_zero_iff.mp same
    simp [strncmp]
  | cons y ys ih =>
    cases a with
    | nil => contradiction
    | cons x xs =>
      have tail := ih (a := xs) (by simpa using same) (fun member => text (.tail _ member))
      have nonzero : y ≠ 0 := fun zero => text (by simp [zero])
      simp only [List.length_cons, strncmp]
      by_cases first : x = y
      · subst first
        simpa only [if_true, if_neg nonzero, List.cons.injEq, true_and] using tail
      · have differ : (x.toNat : Int) - y.toNat ≠ 0 := by
          intro zero
          exact first (UInt8.toNat_inj.mp (by omega))
        simpa only [List.cons.injEq, first, false_and, iff_false, if_false] using differ

/-- A complete header is accepted exactly when it starts with the identifier. -/
theorem acceptHead_holding {s : Session} {bytes : Bytes}
    (buffer : s.reqBuf = holding headerSize bytes) (ten : bytes.length = 10) :
    acceptHead s =
      if bytes.take 4 = headerCont then
        .ok { s.setState .parsingBody with
          eventType := declaredType bytes
          reqBuf := holding (declaredSize bytes) [] }
      else .error (.exception "unknown identifier") := by
  have fits : bytes.length ≤ headerSize.toNat := by rw [ten]; decide
  have identifier : (holding headerSize bytes).load 0 4 = some (bytes.take 4) :=
    holding_load fits (by omega)
  have type : (holding headerSize bytes).load 4 2 = some ((bytes.drop 4).take 2) :=
    holding_load fits (by omega)
  have size : (holding headerSize bytes).load 6 4 = some ((bytes.drop 6).take 4) :=
    holding_load fits (by omega)
  have four : headerCont.length = 4 := by decide
  have compared : strncmp (bytes.take 4) headerCont 4 = 0 ↔ bytes.take 4 = headerCont :=
    strncmp_eq_zero (b := headerCont) (by rw [four]; simp; omega) (by decide)
  simp only [acceptHead, buffer, four, identifier, type, size, holding_realloc, ne_eq, compared,
    ite_not]
  rfl

/-- The bytes already taken out of the input for the parse in progress. In the
body state the header is gone from the buffer, but the session keeps its numbers. -/
def consumed (s : Session) : Bytes :=
  match s.stat with
  | .waitingRequest | .handling => []
  | .parsingHead => (s.reqBuf.buf.map Block.content).getD []
  | .parsingBody =>
    header s.eventType s.reqBuf.total ++ (s.reqBuf.buf.map Block.content).getD []

def held (s : Session) : Bytes := consumed s ++ s.bufev.input

/-- The request buffer as each state of the parser leaves it. -/
inductive Rep (s : Session) : Prop where
  | idle : s.stat = .waitingRequest ∨ s.stat = .handling → s.reqBuf = .empty → Rep s
  | head (bytes : Bytes) : s.stat = .parsingHead → s.reqBuf = holding headerSize bytes →
      bytes.length < 10 → Rep s
  | body (size : UInt32) (bytes : Bytes) : s.stat = .parsingBody → s.reqBuf = holding size bytes →
      (bytes.length < size.toNat ∨ size = 0 ∧ bytes = []) → Rep s

/-- The fields a call of `pack` leaves alone. -/
structure SameConnection (s t : Session) : Prop where
  stored : t.stored = s.stored
  output : t.bufev.output = s.bufev.output
  unread : t.bufev.unread = s.bufev.unread

theorem held_idle {s : Session} (idle : s.stat = .waitingRequest ∨ s.stat = .handling) :
    held s = s.bufev.input := by
  rcases idle with stat | stat <;> simp only [held, consumed, stat, List.nil_append]

theorem held_head {s : Session} {bytes : Bytes} (stat : s.stat = .parsingHead)
    (buffer : s.reqBuf = holding headerSize bytes) : held s = bytes ++ s.bufev.input := by
  simp only [held, consumed, stat, buffer, holding, Option.map_some, Option.getD_some,
    Block.content_filled]

theorem held_body {s : Session} {size : UInt32} {bytes : Bytes} (stat : s.stat = .parsingBody)
    (buffer : s.reqBuf = holding size bytes) :
    held s = header s.eventType size ++ (bytes ++ s.bufev.input) := by
  simp only [held, consumed, stat, buffer, holding, Option.map_some, Option.getD_some,
    Block.content_filled, List.append_assoc]

/-- `pack` answers the session as the parse of the held bytes prescribes, and a
call that returns no event has lost none of them. -/
def Answers (pb : Protobuf) (self : SessionPtr) (s : Session) (bytes : Bytes)
    (answer : Except PackError (Option ReqEvent × Session)) : Parsed → Prop
  | .incomplete => ∃ t, answer = .ok (none, t) ∧ Rep t ∧ held t = bytes ∧
      (t.stat = .parsingHead ∨ t.stat = .parsingBody) ∧ SameConnection s t
  | .unknownIdentifier => answer = .error (.exception "unknown identifier")
  | .unknownType => answer = .error (.exception "unknown event type")
  | .frame type body rest => ∃ parse t, pb.parseFromArray type = some parse ∧
      answer = .ok (some ⟨self, (parse body (UInt32.ofNat body.length).toInt32).2⟩, t) ∧
      t.stat = .parsingBody ∧ t.reqBuf = .empty ∧ t.bufev.input = rest ∧ SameConnection s t

theorem oneShot_header (type : EventType) (size : UInt32) (rest : Bytes) :
    oneShot (header type size ++ rest) =
      if rest.length < size.toNat then .incomplete
      else if ¬ type.IsRequest then .unknownType
      else .frame type (rest.take size.toNat) (rest.drop size.toNat) := by
  have length : (header type size ++ rest).length = 10 + rest.length := by
    rw [List.length_append, header_length]
  have short : ¬ (header type size ++ rest).length < 10 := by omega
  have enough : (header type size ++ rest).length < 10 + size.toNat ↔ rest.length < size.toNat := by
    omega
  have body : (header type size ++ rest).drop 10 = rest :=
    List.drop_left' (header_length type size)
  have remaining : (header type size ++ rest).drop (10 + size.toNat) = rest.drop size.toNat := by
    rw [← List.drop_drop, body]
  simp only [oneShot, if_neg short, header_take, header_size, header_type, enough, body, remaining,
    ne_eq, not_true_eq_false, if_false]

theorem packed_header (type : EventType) (size : UInt32) {rest : Bytes} (more : rest ≠ []) :
    packed (header type size ++ rest) = oneShot (header type size ++ rest) := by
  have positive := List.length_pos_iff.mpr more
  rw [packed, if_neg]
  simp only [List.length_append, header_length]
  omega

theorem packed_header_only (type : EventType) (size : UInt32) :
    packed (header type size) = .incomplete := by
  have identified := header_take type size []
  rw [List.append_nil] at identified
  rw [packed, if_pos ⟨header_length type size, identified⟩]

/-- The session once the parse has begun. -/
def started (s : Session) : Session :=
  { s.setState .parsingHead with reqBuf := holding headerSize [] }

/-- The session once its header is complete, `bytes` being the bytes held for it. -/
def headed (s : Session) (bytes : Bytes) : Session :=
  { s.setState .parsingBody with
    bufev := { s.bufev with input := bytes.drop 10 }
    eventType := declaredType bytes
    reqBuf := holding (declaredSize bytes) [] }

section Calls
variable {s : Session}

theorem packStart_waiting (waiting : s.stat = .waitingRequest) (buffer : s.reqBuf = .empty) :
    packStart s = started s := by
  rw [packStart, if_pos waiting, buffer, holding_alloc]
  rfl

theorem pack_waiting (pb : Protobuf) (self : SessionPtr) (waiting : s.stat = .waitingRequest)
    (buffer : s.reqBuf = .empty) : pack pb self s = pack pb self (started s) := by
  have start : packStart s = started s := packStart_waiting waiting buffer
  have again : packStart (started s) = started s := if_neg State.noConfusion
  have parsing : s.stat ≠ .handling := by simp [waiting]
  have still : (started s).stat ≠ .handling := State.noConfusion
  rw [pack, pack, if_neg parsing, if_neg still, start, again]

theorem pack_head (pb : Protobuf) (self : SessionPtr) (stat : s.stat = .parsingHead) :
    pack pb self s =
      match packHead s with
      | .error e => .error e
      | .ok s => packBody pb self s := by
  have start : packStart s = s := if_neg (by simp [stat])
  have stages : pack pb self s =
      match packHead (packStart s) with
      | .error e => .error e
      | .ok s => packBody pb self s := if_neg (by simp [stat])
  rw [start] at stages
  exact stages

theorem pack_body (pb : Protobuf) (self : SessionPtr) (stat : s.stat = .parsingBody) :
    pack pb self s = packBody pb self s := by
  have start : packStart s = s := if_neg (by simp [stat])
  have head : packHead s = .ok s := if_neg (by simp [stat])
  rw [pack, if_neg (by simp [stat]), start, head]

end Calls

section Body
variable {pb : Protobuf} {self : SessionPtr} {s : Session} {size : UInt32} {bytes : Bytes}

theorem sizeOf_length (fits : bytes.length = size.toNat) : UInt32.ofNat bytes.length = size := by
  rw [fits, UInt32.ofNat_toNat]

/-- The completed body is handed to the parser of its type, with its own length. -/
theorem acceptBody_holding (buffer : s.reqBuf = holding size bytes)
    (complete : bytes.length = size.toNat) :
    acceptBody pb self s =
      match pb.parseFromArray s.eventType with
      | none => .error (.exception "unknown event type")
      | some parse =>
        .ok (some ⟨self, (parse bytes (UInt32.ofNat bytes.length).toInt32).2⟩,
          { s with reqBuf := .empty }) := by
  have data : (holding size bytes).load 0 size.toNat = some (bytes.take size.toNat) :=
    holding_load (Nat.le_of_eq complete) (by omega)
  rw [← complete, List.take_length] at data
  have total : (holding size bytes).total = UInt32.ofNat bytes.length :=
    (sizeOf_length complete).symm
  have count : (UInt32.ofNat bytes.length).toNat = bytes.length := by
    rw [sizeOf_length complete, complete]
  rw [acceptBody]
  cases pb.parseFromArray s.eventType with
  | none => rfl
  | some parse => simp only [buffer, total, count, data, holding_reset]

/-- Bytes that can have been read for a body of a size: it is not complete, or it is
empty and has not been looked at. -/
theorem room_of_fits (fits : bytes.length < size.toNat ∨ size = 0 ∧ bytes = []) :
    bytes.length ≤ size.toNat := by
  rcases fits with less | ⟨zero, nil⟩
  · exact Nat.le_of_lt less
  · simp [zero, nil]

/-- Nothing to read: the session waits, also for a body of no bytes. -/
theorem pack_body_idle (stat : s.stat = .parsingBody) (nothing : s.bufev.input = []) :
    pack pb self s = .ok (none, s) := by
  rw [pack_body pb self stat, packBody, if_neg (by simp [nothing])]

/-- The input is used up before the body is complete. -/
theorem pack_body_short (stat : s.stat = .parsingBody) (buffer : s.reqBuf = holding size bytes)
    (room : bytes.length ≤ size.toNat) (more : s.bufev.input ≠ [])
    (short : (bytes ++ s.bufev.input).length < size.toNat) :
    pack pb self s = .ok (none, { s with
      bufev := { s.bufev with input := [] }
      reqBuf := holding size (bytes ++ s.bufev.input) }) := by
  have nonempty : s.bufev.input.length > 0 := List.length_pos_iff.mpr more
  have lengths : (bytes ++ s.bufev.input).length = bytes.length + s.bufev.input.length :=
    List.length_append
  have all : s.bufev.input.take (size.toNat - bytes.length) = s.bufev.input :=
    List.take_of_length_le (by omega)
  have nothing : s.bufev.input.drop (size.toNat - bytes.length) = [] :=
    List.drop_of_length_le (by omega)
  rw [pack_body pb self stat]
  simp only [packBody, stat, nonempty, and_self, if_true, readMore_holding buffer room, all, nothing]
  rw [holding_isEnough (Nat.le_of_lt short), if_neg (by simpa using Nat.ne_of_lt short)]

/-- The body becomes complete. -/
theorem pack_body_complete (stat : s.stat = .parsingBody) (buffer : s.reqBuf = holding size bytes)
    (room : bytes.length ≤ size.toNat) (more : s.bufev.input ≠ [])
    (enough : ¬ (bytes ++ s.bufev.input).length < size.toNat) :
    pack pb self s =
      match pb.parseFromArray s.eventType with
      | none => .error (.exception "unknown event type")
      | some parse =>
        .ok (some ⟨self, (parse ((bytes ++ s.bufev.input).take size.toNat)
            (UInt32.ofNat ((bytes ++ s.bufev.input).take size.toNat).length).toInt32).2⟩,
          { s with
            bufev := { s.bufev with input := (bytes ++ s.bufev.input).drop size.toNat }
            reqBuf := .empty }) := by
  have nonempty : s.bufev.input.length > 0 := List.length_pos_iff.mpr more
  have all : bytes ++ s.bufev.input.take (size.toNat - bytes.length) =
      (bytes ++ s.bufev.input).take size.toNat := by
    rw [List.take_append, List.take_of_length_le room]
  have left : s.bufev.input.drop (size.toNat - bytes.length) =
      (bytes ++ s.bufev.input).drop size.toNat := by
    rw [List.drop_append, List.drop_of_length_le room, List.nil_append]
  have length : ((bytes ++ s.bufev.input).take size.toNat).length = size.toNat := by
    rw [List.length_take]
    omega
  rw [pack_body pb self stat]
  simp only [packBody, stat, nonempty, and_self, if_true, readMore_holding buffer room, all, left]
  rw [holding_isEnough (Nat.le_of_eq length), if_pos (by simpa using length),
    acceptBody_holding rfl length]

/-- A call on a session whose header is complete. -/
theorem body_answers (stat : s.stat = .parsingBody) (buffer : s.reqBuf = holding size bytes)
    (fits : bytes.length < size.toNat ∨ size = 0 ∧ bytes = []) :
    Answers pb self s (held s) (pack pb self s) (packed (held s)) := by
  have room := room_of_fits fits
  by_cases nothing : s.bufev.input = []
  · have waits : packed (held s) = .incomplete := by
      rw [held_body stat buffer, nothing, List.append_nil]
      rcases fits with less | ⟨_, rfl⟩
      · by_cases none : bytes = []
        · rw [none, List.append_nil, packed_header_only]
        · rw [packed_header _ _ none, oneShot_header, if_pos less]
      · rw [List.append_nil, packed_header_only]
    rw [waits, pack_body_idle stat nothing]
    exact ⟨s, rfl, .body size bytes stat buffer fits, rfl, .inr stat, rfl, rfl, rfl⟩
  · have more : bytes ++ s.bufev.input ≠ [] := by simp [nothing]
    rw [held_body stat buffer, packed_header _ _ more, oneShot_header]
    by_cases short : (bytes ++ s.bufev.input).length < size.toNat
    · rw [if_pos short, pack_body_short stat buffer room nothing short]
      let t : Session := { s with
        bufev := { s.bufev with input := [] }
        reqBuf := holding size (bytes ++ s.bufev.input) }
      have waits : t.stat = .parsingBody := stat
      refine ⟨t, rfl, .body size _ waits rfl (.inl short), ?_, .inr waits, rfl, rfl, rfl⟩
      exact (held_body waits rfl).trans (by rw [List.append_nil])
    · rw [if_neg short, pack_body_complete stat buffer room nothing short]
      by_cases request : s.eventType.IsRequest
      · rw [if_neg (not_not.mpr request)]
        cases found : pb.parseFromArray s.eventType with
        | none => exact absurd request (pb.parseFromArray_none.mp found)
        | some parse => exact ⟨parse, _, found, rfl, stat, rfl, rfl, rfl, rfl, rfl⟩
      · rw [if_pos request, pb.parseFromArray_none.mpr request]
        rfl

end Body

theorem SameConnection.trans {s t u : Session} (first : SameConnection s t)
    (second : SameConnection t u) : SameConnection s u :=
  ⟨second.stored.trans first.stored, second.output.trans first.output,
    second.unread.trans first.unread⟩

theorem Answers.from {pb : Protobuf} {self : SessionPtr} {s t : Session} {bytes : Bytes}
    {answer : Except PackError (Option ReqEvent × Session)} {parsed : Parsed}
    (answers : Answers pb self t bytes answer parsed) (same : SameConnection s t) :
    Answers pb self s bytes answer parsed := by
  cases parsed with
  | incomplete =>
    obtain ⟨u, result, rep, kept, stat, rest⟩ := answers
    exact ⟨u, result, rep, kept, stat, same.trans rest⟩
  | unknownIdentifier | unknownType => exact answers
  | frame type body rest =>
    obtain ⟨parse, u, found, result, stat, buffer, input, rest⟩ := answers
    exact ⟨parse, u, found, result, stat, buffer, input, same.trans rest⟩

theorem declared_take {bytes : Bytes} :
    declaredType (bytes.take 10) = declaredType bytes ∧
      declaredSize (bytes.take 10) = declaredSize bytes := by
  constructor
  · simp only [declaredType, List.drop_take, List.take_take]
    rfl
  · simp only [declaredSize, List.drop_take, List.take_take]
    rfl

theorem packed_short {bytes : Bytes} (short : bytes.length < 10) : packed bytes = .incomplete := by
  rw [packed, if_neg (by omega), oneShot, if_pos short]

/-- Any part of a frame that lacks its end is incomplete. -/
theorem packed_part {type : EventType} {size : UInt32} {body bytes missing : Bytes}
    (sized : body.length = size.toNat) (split : header type size ++ body = bytes ++ missing)
    (more : missing ≠ []) : packed bytes = .incomplete := by
  have positive := List.length_pos_iff.mpr more
  by_cases short : bytes.length < 10
  · exact packed_short short
  · obtain ⟨part, rfl⟩ : header type size <+: bytes := by
      apply List.prefix_of_prefix_length_le (List.prefix_append _ body) ⟨missing, split.symm⟩
      rw [header_length]
      omega
    have rest : body = part ++ missing := by
      rw [List.append_assoc] at split
      exact List.append_cancel_left split
    have fewer : part.length < size.toNat := by
      rw [← sized, rest, List.length_append]
      omega
    by_cases none : part = []
    · rw [none, List.append_nil, packed_header_only]
    · rw [packed_header _ _ none, oneShot_header, if_pos fewer]

theorem packed_unidentified {bytes : Bytes} (enough : ¬ bytes.length < 10)
    (unidentified : bytes.take 4 ≠ headerCont) : packed bytes = .unknownIdentifier := by
  rw [packed, if_neg (fun h => unidentified h.2), oneShot, if_neg enough, if_pos unidentified]

section Head
variable {pb : Protobuf} {self : SessionPtr} {s : Session} {bytes : Bytes}

theorem packHead_short (stat : s.stat = .parsingHead) (buffer : s.reqBuf = holding headerSize bytes)
    (short : (bytes ++ s.bufev.input).length < 10) :
    packHead s = .ok { s with
      bufev := { s.bufev with input := [] }
      reqBuf := holding headerSize (bytes ++ s.bufev.input) } := by
  have size : headerSize.toNat = 10 := by decide
  have lengths : (bytes ++ s.bufev.input).length = bytes.length + s.bufev.input.length :=
    List.length_append
  have room : bytes.length ≤ headerSize.toNat := by omega
  have all : s.bufev.input.take (headerSize.toNat - bytes.length) = s.bufev.input :=
    List.take_of_length_le (by omega)
  have nothing : s.bufev.input.drop (headerSize.toNat - bytes.length) = [] :=
    List.drop_of_length_le (by omega)
  have full : (bytes ++ s.bufev.input).length ≠ headerSize.toNat := by omega
  simp only [packHead, stat, if_true, readMore_holding buffer room, all, nothing]
  rw [holding_isEnough (by omega), if_neg (by simpa using full)]

theorem packHead_complete (stat : s.stat = .parsingHead)
    (buffer : s.reqBuf = holding headerSize bytes) (partly : bytes.length < 10)
    (enough : ¬ (bytes ++ s.bufev.input).length < 10) :
    packHead s =
      if (bytes ++ s.bufev.input).take 4 = headerCont then
        .ok (headed s (bytes ++ s.bufev.input))
      else .error (.exception "unknown identifier") := by
  have size : headerSize.toNat = 10 := by decide
  have lengths : (bytes ++ s.bufev.input).length = bytes.length + s.bufev.input.length :=
    List.length_append
  have room : bytes.length ≤ headerSize.toNat := by omega
  have head : bytes ++ s.bufev.input.take (headerSize.toNat - bytes.length) =
      (bytes ++ s.bufev.input).take 10 := by
    rw [size, List.take_append, List.take_of_length_le (Nat.le_of_lt partly)]
  have left : s.bufev.input.drop (headerSize.toNat - bytes.length) =
      (bytes ++ s.bufev.input).drop 10 := by
    rw [size, List.drop_append, List.drop_of_length_le (Nat.le_of_lt partly), List.nil_append]
  have ten : ((bytes ++ s.bufev.input).take 10).length = 10 := by
    rw [List.length_take]
    omega
  have identifier : ((bytes ++ s.bufev.input).take 10).take 4 = (bytes ++ s.bufev.input).take 4 := by
    rw [List.take_take]
    rfl
  simp only [packHead, stat, if_true, readMore_holding buffer room, head, left]
  rw [holding_isEnough (by omega), if_pos (by simp [ten, size]), acceptHead_holding rfl ten,
    identifier, declared_take.1, declared_take.2]
  rfl

/-- The header takes the first ten of the held bytes. -/
theorem held_headed (enough : 10 ≤ bytes.length) (identified : bytes.take 4 = headerCont) :
    held (headed s bytes) = bytes := by
  have body : held (headed s bytes) =
      header (declaredType bytes) (declaredSize bytes) ++ ([] ++ bytes.drop 10) := held_body rfl rfl
  rw [body, List.nil_append, header_declared enough identified, List.take_append_drop]

/-- An empty buffer of any size is one that a body can be read into. -/
theorem empty_fits (size : UInt32) :
    ([] : Bytes).length < size.toNat ∨ size = 0 ∧ ([] : Bytes) = [] := by
  rcases Nat.eq_zero_or_pos size.toNat with zero | positive
  · exact .inr ⟨UInt32.toNat_inj.mp zero, rfl⟩
  · exact .inl positive

/-- The header becomes complete: it is refused, or the call goes on with its body. -/
theorem pack_head_complete (stat : s.stat = .parsingHead)
    (buffer : s.reqBuf = holding headerSize bytes) (partly : bytes.length < 10)
    (enough : ¬ (bytes ++ s.bufev.input).length < 10) :
    pack pb self s =
      if (bytes ++ s.bufev.input).take 4 = headerCont then
        pack pb self (headed s (bytes ++ s.bufev.input))
      else .error (.exception "unknown identifier") := by
  rw [pack_head pb self stat, packHead_complete stat buffer partly enough]
  by_cases identified : (bytes ++ s.bufev.input).take 4 = headerCont
  · have body : (headed s (bytes ++ s.bufev.input)).stat = .parsingBody := rfl
    rw [if_pos identified, if_pos identified, pack_body pb self body]
  · rw [if_neg identified, if_neg identified]

theorem pack_head_short (stat : s.stat = .parsingHead) (buffer : s.reqBuf = holding headerSize bytes)
    (short : (bytes ++ s.bufev.input).length < 10) :
    pack pb self s = .ok (none, { s with
      bufev := { s.bufev with input := [] }
      reqBuf := holding headerSize (bytes ++ s.bufev.input) }) := by
  rw [pack_head pb self stat, packHead_short stat buffer short]
  exact if_neg (by simp [stat])

/-- A call that starts, or goes on, with the header. -/
theorem head_answers (stat : s.stat = .parsingHead)
    (buffer : s.reqBuf = holding headerSize bytes) (partly : bytes.length < 10) :
    Answers pb self s (held s) (pack pb self s) (packed (held s)) := by
  rw [held_head stat buffer]
  by_cases short : (bytes ++ s.bufev.input).length < 10
  · rw [packed_short short, pack_head_short stat buffer short]
    let t : Session := { s with
      bufev := { s.bufev with input := [] }
      reqBuf := holding headerSize (bytes ++ s.bufev.input) }
    have waits : t.stat = .parsingHead := stat
    refine ⟨t, rfl, .head _ waits rfl short, ?_, .inl waits, rfl, rfl, rfl⟩
    exact (held_head waits rfl).trans (List.append_nil _)
  · rw [pack_head_complete stat buffer partly short]
    by_cases identified : (bytes ++ s.bufev.input).take 4 = headerCont
    · -- The header is complete: from here on it is the body step on the same held bytes.
      have same : held (headed s (bytes ++ s.bufev.input)) = bytes ++ s.bufev.input :=
        held_headed (by omega) identified
      have answers : Answers pb self _ _ (pack pb self (headed s (bytes ++ s.bufev.input))) _ :=
        body_answers rfl rfl (empty_fits _)
      have connection : SameConnection s (headed s (bytes ++ s.bufev.input)) := ⟨rfl, rfl, rfl⟩
      rw [same] at answers
      rw [if_pos identified]
      exact answers.from connection
    · rw [if_neg identified, packed_unidentified short identified]
      rfl

theorem held_started (waiting : s.stat = .waitingRequest) : held (started s) = held s := by
  have head : held (started s) = [] ++ s.bufev.input := held_head rfl rfl
  rw [head, held_idle (.inl waiting), List.nil_append]

end Head

/-- One call of `pack`, in every state the parser can be in, gives the result of
the parse of the held bytes. -/
theorem pack_answers {pb : Protobuf} {self : SessionPtr} {s : Session} (rep : Rep s)
    (parsing : s.stat ≠ .handling) :
    Answers pb self s (held s) (pack pb self s) (packed (held s)) := by
  cases rep with
  | idle idle buffer =>
    have waiting : s.stat = .waitingRequest := by simpa only [parsing, or_false] using idle
    have answers : Answers pb self _ _ (pack pb self (started s)) _ :=
      head_answers rfl rfl (by decide)
    have connection : SameConnection s (started s) := ⟨rfl, rfl, rfl⟩
    rw [held_started waiting] at answers
    rw [pack_waiting pb self waiting buffer]
    exact answers.from connection
  | head bytes stat buffer partly => exact head_answers stat buffer partly
  | body size bytes stat buffer fits => exact body_answers stat buffer fits

end Shbk2.MsgProxy
