import Shbk2.Reassembly

/-! `MsgProxy::Unpack` and the way back. The stores go to a block of the size that was
computed, one behind the other; what they leave there is the frame that `pack` makes
the event from, and that the client writes. -/
namespace Shbk2

/-- An event as `Unpack` sees it: its virtual functions. `serializeToArray` is what is
written at `data` for a size. -/
structure Serializable where
  type : EventType
  byteSize : Int32
  serializeToArray : Int32 → Bytes

namespace MsgProxy

/-- The block and its size; none where a store leaves the block. -/
def unpack (event : Serializable) : Option (Block × UInt32) :=
  let msgSize := headerSize + event.byteSize.toUInt32
  let msg := Block.uninitialized msgSize.toNat
  (Block.store msg 0 headerCont).bind fun msg =>
    (Block.store msg headerCont.length (LittleEndian.encode 2 event.type.value.toNat)).bind fun msg =>
      (Block.store msg (headerCont.length + 2)
          (LittleEndian.encode 4 event.byteSize.toUInt32.toNat)).bind fun msg =>
        (Block.store msg (headerCont.length + 2 + 4)
          (event.serializeToArray event.byteSize)).map fun msg => (msg, msgSize)

end MsgProxy

/-- The frame of a message: identifier, type, length, body. -/
def frame (type : EventType) (body : Bytes) : Bytes :=
  ascii "SHBK" ++ (LittleEndian.encode 2 type.value.toNat ++
    (LittleEndian.encode 4 body.length ++ body))

namespace ClientSimulator

structure Header where
  id : Bytes
  type : UInt16
  messageLen : Int32

def Header.writeEvbuffer (header : Header) (evbuf : Bytes) : Bytes :=
  evbuf ++ header.id ++ LittleEndian.encode 2 header.type.toNat ++
    LittleEndian.encode 4 header.messageLen.toUInt32.toNat

end ClientSimulator

namespace MsgProxy

/-- A size that is not negative is the same number without its sign. -/
theorem toNat_toUInt32 {size : Int32} {n : Nat} (value : size.toInt = n) :
    size.toUInt32.toNat = n := by
  have bits : size.toInt = size.toUInt32.toBitVec.toInt := rfl
  have same : size.toUInt32.toBitVec.toNat = size.toUInt32.toNat := rfl
  have bound := size.toUInt32.toNat_lt
  rw [bits, BitVec.toInt_eq_toNat_cond, same] at value
  split at value <;> omega

theorem frame_header {type : EventType} {body : Bytes} {size : UInt32}
    (sized : body.length = size.toNat) : frame type body = header type size ++ body := by
  simp only [frame, header, headerCont, sized, List.append_assoc]

theorem frame_length (type : EventType) (body : Bytes) :
    (frame type body).length = 10 + body.length := by
  simp [frame, ascii]
  omega

section Encode
variable {event : Serializable} {b : Bytes}

/-- The four stores fill the block. -/
theorem unpack_frame (sized : event.byteSize.toInt = b.length)
    (written : event.serializeToArray event.byteSize = b) :
    ∃ size, unpack event = some ((frame event.type b).map some, size) ∧
      size.toNat = 10 + b.length := by
  have bytes := toNat_toUInt32 sized
  have bound : event.byteSize.toInt < 2 ^ 31 := event.byteSize.toInt_lt
  have ten : headerSize.toNat = 10 := by decide
  have four : headerCont.length = 4 := by decide
  have total : (headerSize + event.byteSize.toUInt32).toNat = 10 + b.length := by
    rw [UInt32.toNat_add, bytes]
    omega
  have two : (LittleEndian.encode 2 event.type.value.toNat).length = 2 := LittleEndian.encode_length 2 _
  have fourMore : (LittleEndian.encode 4 b.length).length = 4 := LittleEndian.encode_length 4 _
  have start : Block.uninitialized (10 + b.length) = Block.filled (10 + b.length) [] :=
    (Block.filled_nil _).symm
  have identifier : Block.store (Block.filled (10 + b.length) []) 0 headerCont =
      some (Block.filled (10 + b.length) ([] ++ headerCont)) :=
    Block.store_behind rfl (by omega)
  have type : Block.store (Block.filled (10 + b.length) ([] ++ headerCont)) headerCont.length
      (LittleEndian.encode 2 event.type.value.toNat) = some (Block.filled (10 + b.length)
        ([] ++ headerCont ++ LittleEndian.encode 2 event.type.value.toNat)) :=
    Block.store_behind rfl (by omega)
  have length : Block.store (Block.filled (10 + b.length)
      ([] ++ headerCont ++ LittleEndian.encode 2 event.type.value.toNat)) (headerCont.length + 2)
        (LittleEndian.encode 4 b.length) = some (Block.filled (10 + b.length)
          ([] ++ headerCont ++ LittleEndian.encode 2 event.type.value.toNat ++
            LittleEndian.encode 4 b.length)) :=
    Block.store_behind (by rw [List.length_append, two]; rfl) (by omega)
  have body : Block.store (Block.filled (10 + b.length)
      ([] ++ headerCont ++ LittleEndian.encode 2 event.type.value.toNat ++
        LittleEndian.encode 4 b.length)) (headerCont.length + 2 + 4) b =
      some (Block.filled (10 + b.length) (frame event.type b)) := by
    have whole : [] ++ headerCont ++ LittleEndian.encode 2 event.type.value.toNat ++
        LittleEndian.encode 4 b.length ++ b = frame event.type b := by
      simp only [frame, headerCont, List.nil_append, List.append_assoc]
    rw [← whole]
    exact Block.store_behind (by rw [List.length_append, List.length_append, two, fourMore]; rfl)
      (by omega)
  have full : Block.filled (10 + b.length) (frame event.type b) =
      (frame event.type b).map some := by
    rw [← frame_length event.type b, Block.filled_full]
  refine ⟨headerSize + event.byteSize.toUInt32, ?_, total⟩
  simp only [unpack, total, bytes, written, start, identifier, type, length, body, full,
    Option.bind_some, Option.map_some]

end Encode

section Decode
variable {pb : Protobuf} {self : SessionPtr} {s : Session}

/-- Chunks of a frame that lack its end are all taken without an event. -/
theorem feed_part {type : EventType} {size : UInt32} {body missing : Bytes} {chunks : List Bytes}
    (rep : Rep s) (parsing : s.stat ≠ .handling) (sized : body.length = size.toNat)
    (split : header type size ++ body = held s ++ chunks.flatten ++ missing)
    (more : missing ≠ []) : ∃ t, feed pb self s chunks = some t := by
  induction chunks generalizing s with
  | nil => exact ⟨s, rfl⟩
  | cons chunk chunks ih =>
    have rest : header type size ++ body = held s ++ chunk ++ (chunks.flatten ++ missing) := by
      rw [split, List.flatten_cons]
      simp only [List.append_assoc]
    have incomplete : packed (held s ++ chunk) = .incomplete :=
      packed_part sized rest (by simp [more])
    have answers : Answers pb self (s.arrive chunk) (held s ++ chunk) _ _ :=
      NetGate.arrive_answers rep parsing chunk
    rw [incomplete] at answers
    obtain ⟨t, result, after, kept, stat, _⟩ := answers
    have still : t.stat ≠ .handling := by rcases stat with head | body <;> simp [*]
    obtain ⟨u, fed⟩ := ih after still (by rw [rest, kept, ← List.append_assoc])
    exact ⟨u, by simp only [feed, result, fed]⟩

end Decode

/-- A frame in any chunking, sent to a session that waits for a request and holds nothing:
the calls before the last one return no event, the last one returns the frame's. -/
theorem gives_frame {pb : Protobuf} {self : SessionPtr} {s : Session} {event : Serializable}
    {b last : Bytes} {chunks : List Bytes} (sized : event.byteSize.toInt = b.length) (rep : Rep s)
    (waiting : s.stat = .waitingRequest) (empty : s.bufev.input = [])
    (request : event.type.IsRequest) (positive : 1 ≤ b.length) (more : last ≠ [])
    (whole : (chunks ++ [last]).flatten = frame event.type b) :
    ∃ t, feed pb self s chunks = some t ∧
      Gives pb self (pack pb self (t.arrive last)) (.frame event.type b []) := by
  have bytes := toNat_toUInt32 sized
  have parsing : s.stat ≠ .handling := by simp [waiting]
  have nothing : held s = [] := by rw [held_idle (.inl waiting), empty]
  have split : header event.type event.byteSize.toUInt32 ++ b = held s ++ chunks.flatten ++ last := by
    rw [nothing, List.nil_append, ← frame_header bytes.symm, ← whole, List.flatten_append,
      List.flatten_singleton]
  obtain ⟨t, fed⟩ := feed_part rep parsing bytes.symm split more
  have body : oneShot (header event.type event.byteSize.toUInt32 ++ b) =
      .frame event.type b [] := by
    rw [oneShot_header, bytes, if_neg (Nat.lt_irrefl _), if_neg (not_not.mpr request),
      List.take_length, List.drop_length]
  rw [← body]
  refine ⟨t, fed, gives_of_feed rep waiting fed ?_ fun _ _ => ?_⟩
  · rw [empty, List.nil_append, whole, frame_header bytes.symm]
  · have bound : event.byteSize.toInt < 2 ^ 31 := event.byteSize.toInt_lt
    rw [header_size, bytes]
    omega

/-- The client writes the same bytes before the body. -/
theorem writeEvbuffer_frame {event : Serializable} {b : Bytes}
    (sized : event.byteSize.toInt = b.length) :
    (⟨ascii "SHBK", event.type.value, event.byteSize⟩ : ClientSimulator.Header).writeEvbuffer [] ++
      b = frame event.type b := by
  simp only [ClientSimulator.Header.writeEvbuffer, toNat_toUInt32 sized, frame, List.nil_append,
    List.append_assoc]

end MsgProxy

namespace World
open MsgProxy Transition

/-- Every session that waits for a request and has no input takes the frame of a request
event, in every chunking with a `pack` for each chunk, for that event. -/
def Decodes (pb : Protobuf) (type : EventType) (b : Bytes) (w : World) : Prop :=
  ∀ addr o, w.heap addr = some o → o.session.stat = .waitingRequest → o.session.bufev.input = [] →
    type.IsRequest → 1 ≤ b.length →
    ∀ (chunks : List Bytes) (last : Bytes), last ≠ [] → (chunks ++ [last]).flatten = frame type b →
      ∃ t, feed pb o.self o.session chunks = some t ∧
        Gives pb o.self (pack pb o.self (t.arrive last)) (.frame type b [])

/-- What `unpack` makes of an event is its frame, which is what the client writes; and in
every state of the runs that delete no session while its request is handled, `pack` gives
the event back from the frame. -/
theorem roundTrip_of_spares (event : Serializable) (b : Bytes)
    (sized : event.byteSize.toInt = b.length)
    (written : event.serializeToArray event.byteSize = b) :
    (∃ size, unpack event = some ((frame event.type b).map some, size) ∧
        size.toNat = 10 + b.length) ∧
      (⟨ascii "SHBK", event.type.value, event.byteSize⟩ : ClientSimulator.Header).writeEvbuffer [] ++
          b = frame event.type b ∧
      ∀ (pb : Protobuf) (db : Database) (workers : Nat) (table : List Bytes) (actions : List Action),
        Along (step pb db) Spares (init workers table) actions →
          Always (step pb db) (Decodes pb event.type b) (init workers table) actions := by
  refine ⟨unpack_frame sized written, writeEvbuffer_frame sized, ?_⟩
  intro pb db workers table actions spares
  refine (safe_run spares).mono ?_
  intro w safe addr o lives waiting empty request positive chunks last more whole
  exact gives_frame sized (safe.1.inv lives).rep waiting empty request positive more whole

/-- A login request, cut inside its header and inside its body, for a session that was
answered before. -/
theorem roundTrip_of_spares_cut :
    ∃ w o t, run (step WireFormat.protobuf ⟨fun _ _ => none⟩) (init 1 []) answeredRun = some w ∧
      w.heap 4096 = some o ∧
      feed WireFormat.protobuf o.self o.session
        [ascii "SH", ascii "BK" ++ [3, 0, 7, 0, 0, 0, 10, 1]] = some t ∧
      Gives WireFormat.protobuf o.self
        (pack WireFormat.protobuf o.self (t.arrive [49, 16, 160, 141, 6]))
        (.frame .kLoginReq [10, 1, 49, 16, 160, 141, 6] []) := by
  obtain ⟨w, o, ran, lives, waiting, input⟩ : ∃ w o,
      run (step WireFormat.protobuf ⟨fun _ _ => none⟩) (init 1 []) answeredRun = some w ∧
        w.heap 4096 = some o ∧ o.session.stat = .waitingRequest ∧ o.session.bufev.input = [] :=
    ⟨_, _, rfl, rfl, rfl, rfl⟩
  have always := (roundTrip_of_spares ⟨.kLoginReq, 7, fun _ => [10, 1, 49, 16, 160, 141, 6]⟩
    [10, 1, 49, 16, 160, 141, 6] rfl rfl).2.2 WireFormat.protobuf ⟨fun _ _ => none⟩ 1 []
      answeredRun answeredRun_spares
  obtain ⟨t, fed, gives⟩ := always.final ran 4096 o lives waiting input (by decide) (by decide)
    [ascii "SH", ascii "BK" ++ [3, 0, 7, 0, 0, 0, 10, 1]] [49, 16, 160, 141, 6] (by decide) rfl
  exact ⟨w, o, t, ran, lives, fed, gives⟩

/-- A session with bytes of an earlier request in its buffer throws the frame away. -/
theorem stale_bytes_break_frame :
    ∃ w o, run (step WireFormat.protobuf ⟨fun _ _ => none⟩) (init 1 []) staleRun = some w ∧
      w.heap 4096 = some o ∧ o.session.stat = .waitingRequest ∧ o.session.bufev.input = [] ∧
      frame .kPhoneReq [10, 0] = ascii "SHBK" ++ [1, 0, 2, 0, 0, 0, 10, 0] ∧
      pack WireFormat.protobuf o.self (o.session.arrive (frame .kPhoneReq [10, 0])) =
        .error (.exception "unknown identifier") ∧
      ¬ Decodes WireFormat.protobuf .kPhoneReq [10, 0] w := by
  obtain ⟨w, o, ran, lives, waiting, input, _, thrown⟩ := staleRun_waits
  have bytes : frame .kPhoneReq [10, 0] = ascii "SHBK" ++ [1, 0, 2, 0, 0, 0, 10, 0] := by decide
  rw [← bytes] at thrown
  refine ⟨w, o, ran, lives, waiting, input, bytes, thrown, fun decodes => ?_⟩
  obtain ⟨t, fed, gives⟩ := decodes 4096 o lives waiting input (by decide) (by decide) []
    (frame .kPhoneReq [10, 0]) (by decide) (List.flatten_singleton)
  obtain rfl := Option.some.inj fed
  rw [thrown] at gives
  obtain ⟨_, _, _, _, _, _, _, _, parsed, _⟩ := gives
  contradiction

end World
end Shbk2
