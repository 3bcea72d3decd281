import Shbk2.Framing

/-! What one call of `pack` does on its way, as the list of its acts on the session
and its request buffer, branch by branch as in `pack` itself. -/
namespace Shbk2

/-- The cycle of a session. -/
def State.next : State → State
  | .waitingRequest => .parsingHead
  | .parsingHead => .parsingBody
  | .parsingBody => .handling
  | .handling => .waitingRequest

namespace MsgProxy

/-- `set_state`; the verdict of `Alloc`; a `bufferevent_read` into the buffer as it is
before, with the count it returns; the arguments of `ParseFromArray`. -/
inductive Act where
  | setState (stat : State)
  | alloc (succeeded : Bool)
  | read (stat : State) (buffer : Buffer) (curt : Nat)
  | parseFromArray (data : Bytes) (size : Int32)
  deriving DecidableEq

/-- What `bufferevent_read` returns where it reads for the request buffer. -/
def readCount (s : Session) : Nat :=
  (s.bufev.read (s.reqBuf.total - s.reqBuf.last).toNat).1.length

def startTrace (s : Session) : List Act :=
  if s.stat = .waitingRequest then [.setState .parsingHead, .alloc (s.reqBuf.alloc headerSize).1]
  else []

def headTrace (s : Session) : List Act :=
  if s.stat = .parsingHead then
    .read s.stat s.reqBuf (readCount s) ::
      match readMore s with
      | none => []
      | some s =>
        if s.reqBuf.isEnough then
          match acceptHead s with
          | .error _ => []
          | .ok t => [.setState t.stat]
        else []
  else []

def acceptTrace (pb : Protobuf) (s : Session) : List Act :=
  match pb.parseFromArray s.eventType with
  | none => []
  | some _ =>
    match s.reqBuf.load 0 s.reqBuf.total.toNat with
    | none => []
    | some data => [.parseFromArray data s.reqBuf.total.toInt32]

def bodyTrace (pb : Protobuf) (s : Session) : List Act :=
  if s.stat = .parsingBody ∧ s.bufev.input.length > 0 then
    .read s.stat s.reqBuf (readCount s) ::
      match readMore s with
      | none => []
      | some s => if s.reqBuf.isEnough then acceptTrace pb s else []
  else []

/-- The acts of `pack`. -/
def packTrace (pb : Protobuf) (s : Session) : List Act :=
  if s.stat = .handling then []
  else
    startTrace s ++ (headTrace (packStart s) ++
      match packHead (packStart s) with
      | .error _ => []
      | .ok s => bodyTrace pb s)

theorem readMore_stat {s t : Session} (read : readMore s = some t) : t.stat = s.stat := by
  obtain ⟨block, _, read⟩ := Option.bind_eq_some_iff.mp read
  obtain ⟨_, _, rfl⟩ := Option.map_eq_some_iff.mp read
  rfl

theorem packStart_stat {s : Session} (parsing : s.stat ≠ .handling) :
    (packStart s).stat ≠ .handling := by
  unfold packStart
  split
  · exact State.noConfusion
  · exact parsing

theorem packHead_stat {s t : Session} (parsing : s.stat ≠ .handling)
    (packed : packHead s = .ok t) : t.stat ≠ .handling := by
  unfold packHead at packed
  split at packed
  · split at packed
    · contradiction
    · rename_i u read
      split at packed
      · unfold acceptHead at packed
        split at packed
        · split at packed
          · contradiction
          · cases packed
            exact State.noConfusion
        · contradiction
      · cases packed
        rw [readMore_stat read]
        exact parsing
  · cases packed
    exact parsing

theorem packBody_stat {pb : Protobuf} {self : SessionPtr} {s t : Session}
    {event : Option ReqEvent} (packed : packBody pb self s = .ok (event, t)) : t.stat = s.stat := by
  unfold packBody at packed
  split at packed
  · split at packed
    · contradiction
    · rename_i u read
      have same := readMore_stat read
      split at packed
      · unfold acceptBody at packed
        split at packed
        · contradiction
        · split at packed
          · contradiction
          · cases packed
            exact same
      · cases packed
        exact same
  · cases packed
    rfl

/-- `pack` leaves the state `HANDLING` to its caller. -/
theorem pack_stat {pb : Protobuf} {self : SessionPtr} {s t : Session} {event : Option ReqEvent}
    (packed : pack pb self s = .ok (event, t)) : t.stat ≠ .handling := by
  unfold pack at packed
  split at packed
  · contradiction
  · rename_i parsing
    split at packed
    · contradiction
    · rename_i u head
      rw [packBody_stat packed]
      exact packHead_stat (packStart_stat parsing) head

section Stages
variable {pb : Protobuf} {self : SessionPtr} {s : Session} {size : UInt32} {bytes : Bytes}

/-- The acts that begin the parse. -/
theorem packTrace_waiting (pb : Protobuf) (waiting : s.stat = .waitingRequest)
    (buffer : s.reqBuf = .empty) : packTrace pb s =
      .setState .parsingHead :: .alloc true :: packTrace pb (started s) := by
  have start : packStart s = started s := packStart_waiting waiting buffer
  have again : packStart (started s) = started s := if_neg State.noConfusion
  have parsing : s.stat ≠ .handling := by simp [waiting]
  have still : (started s).stat ≠ .handling := State.noConfusion
  have allocated : (s.reqBuf.alloc headerSize).1 = true := by rw [buffer]; rfl
  rw [packTrace, packTrace, if_neg parsing, if_neg still, start, again, startTrace,
    if_pos waiting, allocated]
  rfl

theorem readCount_holding (buffer : s.reqBuf = holding size bytes)
    (fits : bytes.length ≤ size.toNat) :
    readCount s = min (size.toNat - bytes.length) s.bufev.input.length := by
  have last := holding_last fits
  have request : (s.reqBuf.total - s.reqBuf.last).toNat = size.toNat - bytes.length := by
    rw [buffer, UInt32.toNat_sub_of_le _ _ (UInt32.le_iff_toNat_le.mpr (by rw [last]; exact fits)),
      last]
    rfl
  rw [readCount, request, Bufferevent.read, List.length_take]

theorem packTrace_head (stat : s.stat = .parsingHead) : packTrace pb s = headTrace s ++
    match packHead s with
    | .error _ => []
    | .ok s => bodyTrace pb s := by
  have start : packStart s = s := if_neg (by simp [stat])
  rw [packTrace, if_neg (by simp [stat]), start, startTrace, if_neg (by simp [stat])]
  rfl

theorem packTrace_body (stat : s.stat = .parsingBody) : packTrace pb s = bodyTrace pb s := by
  have start : packStart s = s := if_neg (by simp [stat])
  have head : packHead s = .ok s := if_neg (by simp [stat])
  rw [packTrace, if_neg (by simp [stat]), start, head, startTrace, if_neg (by simp [stat]),
    headTrace, if_neg (by simp [stat])]
  rfl

/-- The header does not become complete. -/
theorem packTrace_head_short (pb : Protobuf) (stat : s.stat = .parsingHead)
    (buffer : s.reqBuf = holding headerSize bytes) (short : (bytes ++ s.bufev.input).length < 10) :
    packTrace pb s = [.read .parsingHead (holding headerSize bytes) s.bufev.input.length] := by
  have ten : headerSize.toNat = 10 := by decide
  have lengths : (bytes ++ s.bufev.input).length = bytes.length + s.bufev.input.length :=
    List.length_append
  have room : bytes.length ≤ headerSize.toNat := by omega
  have count : readCount s = s.bufev.input.length := by
    rw [readCount_holding buffer room]
    omega
  have all : s.bufev.input.take (headerSize.toNat - bytes.length) = s.bufev.input :=
    List.take_of_length_le (by omega)
  have full : (bytes ++ s.bufev.input).length ≠ headerSize.toNat := by omega
  have read : headTrace s = [.read .parsingHead (holding headerSize bytes) s.bufev.input.length] := by
    simp only [headTrace, stat, if_true, readMore_holding buffer room, all, count]
    rw [holding_isEnough (by omega), if_neg (by simpa using full), buffer]
  rw [packTrace_head stat, read, packHead_short stat buffer short]
  simp [bodyTrace, stat]

/-- The header becomes complete: it is refused, or the call goes on with its body. -/
theorem packTrace_head_complete (pb : Protobuf) (stat : s.stat = .parsingHead)
    (buffer : s.reqBuf = holding headerSize bytes) (partly : bytes.length < 10)
    (enough : ¬ (bytes ++ s.bufev.input).length < 10) :
    packTrace pb s = .read .parsingHead (holding headerSize bytes) (10 - bytes.length) ::
      if (bytes ++ s.bufev.input).take 4 = headerCont then
        .setState .parsingBody :: packTrace pb (headed s (bytes ++ s.bufev.input))
      else [] := by
  have ten : headerSize.toNat = 10 := by decide
  have lengths : (bytes ++ s.bufev.input).length = bytes.length + s.bufev.input.length :=
    List.length_append
  have room : bytes.length ≤ headerSize.toNat := by omega
  have count : readCount s = 10 - bytes.length := by
    rw [readCount_holding buffer room]
    omega
  have head : bytes ++ s.bufev.input.take (headerSize.toNat - bytes.length) =
      (bytes ++ s.bufev.input).take 10 := by
    rw [ten, List.take_append, List.take_of_length_le (Nat.le_of_lt partly)]
  have whole : ((bytes ++ s.bufev.input).take 10).length = 10 := by
    rw [List.length_take]
    omega
  have identifier : ((bytes ++ s.bufev.input).take 10).take 4 = (bytes ++ s.bufev.input).take 4 := by
    rw [List.take_take]
    rfl
  have read : headTrace s = .read .parsingHead (holding headerSize bytes) (10 - bytes.length) ::
      if (bytes ++ s.bufev.input).take 4 = headerCont then [.setState .parsingBody] else [] := by
    simp only [headTrace, stat, if_true, readMore_holding buffer room, head, count]
    rw [holding_isEnough (by omega), if_pos (by simp [whole, ten]), acceptHead_holding rfl whole,
      identifier, buffer]
    by_cases identified : (bytes ++ s.bufev.input).take 4 = headerCont
    · rw [if_pos identified, if_pos identified]
      rfl
    · rw [if_neg identified, if_neg identified]
  rw [packTrace_head stat, read, packHead_complete stat buffer partly enough]
  by_cases identified : (bytes ++ s.bufev.input).take 4 = headerCont
  · rw [if_pos identified, if_pos identified, if_pos identified, packTrace_body rfl]
    rfl
  · rw [if_neg identified, if_neg identified, if_neg identified]
    rfl

theorem body_stat {event : Option ReqEvent} {t : Session} (stat : s.stat = .parsingBody)
    (packed : pack pb self s = .ok (event, t)) : t.stat = .parsingBody := by
  rw [pack_body pb self stat] at packed
  rw [packBody_stat packed, stat]

theorem packTrace_body_idle (stat : s.stat = .parsingBody) (nothing : s.bufev.input = []) :
    packTrace pb s = [] := by
  rw [packTrace_body stat, bodyTrace, if_neg (by simp [nothing])]

/-- A read for the body, and the parse of the body if that completes it. -/
theorem packTrace_body_read (pb : Protobuf) (stat : s.stat = .parsingBody)
    (buffer : s.reqBuf = holding size bytes) (room : bytes.length ≤ size.toNat) (more : s.bufev.input ≠ []) :
    packTrace pb s =
      .read .parsingBody (holding size bytes)
          (min (size.toNat - bytes.length) s.bufev.input.length) ::
        if (bytes ++ s.bufev.input).length < size.toNat ∨ ¬ s.eventType.IsRequest then []
        else [.parseFromArray ((bytes ++ s.bufev.input).take size.toNat) size.toInt32] := by
  have nonempty : s.bufev.input.length > 0 := List.length_pos_iff.mpr more
  have all : bytes ++ s.bufev.input.take (size.toNat - bytes.length) =
      (bytes ++ s.bufev.input).take size.toNat := by
    rw [List.take_append, List.take_of_length_le room]
  rw [packTrace_body stat]
  simp only [bodyTrace, stat, nonempty, and_self, if_true, readMore_holding buffer room, all,
    readCount_holding buffer room, buffer]
  have most : ((bytes ++ s.bufev.input).take size.toNat).length ≤ size.toNat :=
    List.length_take_le _ _
  rw [holding_isEnough most]
  by_cases short : (bytes ++ s.bufev.input).length < size.toNat
  · have partly : ((bytes ++ s.bufev.input).take size.toNat).length ≠ size.toNat := by
      rw [List.length_take]
      omega
    rw [if_neg (by simpa using partly), if_pos (.inl short)]
  · have complete : ((bytes ++ s.bufev.input).take size.toNat).length = size.toNat := by
      rw [List.length_take]
      omega
    have data : (holding size ((bytes ++ s.bufev.input).take size.toNat)).load 0 size.toNat =
        some ((bytes ++ s.bufev.input).take size.toNat) := by
      rw [holding_load most (by omega), List.drop_zero, List.take_take, Nat.min_self]
    have total : (holding size ((bytes ++ s.bufev.input).take size.toNat)).total = size := rfl
    rw [if_pos (by simpa using complete), acceptTrace]
    by_cases request : s.eventType.IsRequest
    · rw [if_neg (not_or.mpr ⟨short, not_not.mpr request⟩)]
      cases found : pb.parseFromArray s.eventType with
      | none => exact absurd request (pb.parseFromArray_none.mp found)
      | some parse => simp only [total, data]
    · rw [if_pos (.inr request), pb.parseFromArray_none.mpr request]

end Stages
end MsgProxy
end Shbk2
