import Shbk2.Reassembly
import Shbk2.Trace

/-! The session and its request buffer, between callbacks and at every access on the
way: what each state of the session says about the buffer, the order in which the
states follow, and the reads into the buffer. A completion that meets a session in the
middle of a request breaks all of it. -/
namespace Shbk2
open MsgProxy

namespace MsgProxy

/-- A read that neither wraps nor leaves the block. -/
structure SafeRead (buffer : Buffer) (curt : Nat) : Prop where
  request : buffer.last ≤ buffer.total
  inside : ∃ block, buffer.buf = some block ∧ block.length = buffer.total.toNat ∧
    buffer.last.toNat + curt ≤ block.length
  position : buffer.last.toNat + curt < 2 ^ 32

/-- From one state to another: the state moves along the cycle or stays, the buffer is
allocated where none is present, and every read is safe. -/
inductive Runs : State → List Act → State → Prop where
  | nil (stat : State) : Runs stat [] stat
  | setState {stat next last : State} {rest : List Act} : (next = stat.next ∨ next = stat) →
      Runs next rest last → Runs stat (.setState next :: rest) last
  | alloc {stat last : State} {rest : List Act} : Runs stat rest last →
      Runs stat (.alloc true :: rest) last
  | read {stat last : State} {buffer : Buffer} {curt : Nat} {rest : List Act} :
      SafeRead buffer curt → Runs stat rest last → Runs stat (.read stat buffer curt :: rest) last
  | parseFromArray {stat last : State} {rest : List Act} (data : Bytes) (size : Int32) :
      Runs stat rest last → Runs stat (.parseFromArray data size :: rest) last

theorem Runs.append {stat middle last : State} {first second : List Act}
    (left : Runs stat first middle) (right : Runs middle second last) :
    Runs stat (first ++ second) last := by
  induction left with
  | nil => exact right
  | setState allowed _ ih => exact .setState allowed (ih right)
  | alloc _ ih => exact .alloc (ih right)
  | read safe _ ih => exact .read safe (ih right)
  | parseFromArray data size _ ih => exact .parseFromArray data size (ih right)

section Pack
variable {pb : Protobuf} {self : SessionPtr} {s : Session} {size : UInt32} {bytes : Bytes}

theorem safeRead_holding {curt : Nat} (fits : bytes.length + curt ≤ size.toNat) :
    SafeRead (holding size bytes) curt := by
  have bound := size.toNat_lt
  have last : (holding size bytes).last.toNat = bytes.length := holding_last (by omega)
  refine ⟨?_, ⟨Block.filled size.toNat bytes, rfl, Block.filled_length (by omega), ?_⟩, ?_⟩
  · rw [UInt32.le_iff_toNat_le, last]
    exact Nat.le_trans (Nat.le_add_right _ _) fits
  · rw [last, Block.filled_length (by omega)]
    exact fits
  · rw [last]
    omega

theorem runs_body (stat : s.stat = .parsingBody) (buffer : s.reqBuf = holding size bytes)
    (room : bytes.length ≤ size.toNat) : Runs .parsingBody (packTrace pb s) .parsingBody := by
  by_cases nothing : s.bufev.input = []
  · rw [packTrace_body_idle stat nothing]
    exact .nil _
  · rw [packTrace_body_read pb stat buffer room nothing]
    refine .read (safeRead_holding (by omega)) ?_
    split
    · exact .nil _
    · exact .parseFromArray _ _ (.nil _)

/-- The acts of a call that starts, or goes on, with the header. -/
theorem runs_head (stat : s.stat = .parsingHead) (buffer : s.reqBuf = holding headerSize bytes)
    (partly : bytes.length < 10) : ∃ last, Runs .parsingHead (packTrace pb s) last ∧
      ∀ event t, pack pb self s = .ok (event, t) → t.stat = last := by
  have ten : headerSize.toNat = 10 := by decide
  have lengths : (bytes ++ s.bufev.input).length = bytes.length + s.bufev.input.length :=
    List.length_append
  by_cases short : (bytes ++ s.bufev.input).length < 10
  · refine ⟨.parsingHead, ?_, ?_⟩
    · rw [packTrace_head_short pb stat buffer short]
      exact .read (safeRead_holding (by omega)) (.nil _)
    · intro event t packed
      rw [pack_head_short stat buffer short] at packed
      obtain rfl := (Prod.mk.inj (Except.ok.inj packed)).2
      exact stat
  · rw [packTrace_head_complete pb stat buffer partly short,
      pack_head_complete stat buffer partly short]
    by_cases identified : (bytes ++ s.bufev.input).take 4 = headerCont
    · rw [if_pos identified, if_pos identified]
      refine ⟨.parsingBody, .read (safeRead_holding (by omega)) (.setState (.inl rfl) ?_), ?_⟩
      · exact runs_body rfl rfl (Nat.zero_le _)
      · intro event t packed
        exact body_stat rfl packed
    · rw [if_neg identified, if_neg identified]
      refine ⟨.parsingHead, .read (safeRead_holding (by omega)) (.nil _), ?_⟩
      intro event t packed
      contradiction

/-- The acts of one call of `pack`, in every state the parser can be in. -/
theorem pack_runs (rep : Rep s) : ∃ last, Runs s.stat (packTrace pb s) last ∧
    ∀ event t, pack pb self s = .ok (event, t) → t.stat = last := by
  cases rep with
  | head bytes stat buffer partly =>
    rw [stat]
    exact runs_head stat buffer partly
  | body size bytes stat buffer fits =>
    rw [stat]
    exact ⟨.parsingBody, runs_body stat buffer (room_of_fits fits),
      fun event t packed => body_stat stat packed⟩
  | idle idle buffer =>
    rcases idle with waiting | handling
    · have head : ∃ last, Runs .parsingHead (packTrace pb (started s)) last ∧
          ∀ event t, pack pb self (started s) = .ok (event, t) → t.stat = last :=
        runs_head rfl rfl (by decide)
      obtain ⟨last, runs, final⟩ := head
      rw [waiting, pack_waiting pb self waiting buffer, packTrace_waiting pb waiting buffer]
      exact ⟨last, .setState (.inl rfl) (.alloc runs), final⟩
    · have nothing : packTrace pb s = [] := if_pos handling
      have thrown : pack pb self s = .error (.exception "invalid session state") := if_pos handling
      rw [nothing, thrown]
      exact ⟨s.stat, .nil _, fun event t packed => nomatch packed⟩

/-- The size of the block in the body state is the one the header declares. -/
theorem total_declared (rep : Rep s) (stat : s.stat = .parsingBody) :
    s.reqBuf.total = declaredSize (held s) := by
  cases rep with
  | idle idle => simp [stat] at idle
  | head _ other => simp [stat] at other
  | body size bytes _ buffer =>
    rw [held_body stat buffer, header_size, buffer]
    rfl

/-- An event is returned in the state in which its body was read. -/
theorem answers_event {t : Session} {event : ReqEvent} {parsed : Parsed}
    (answers : Answers pb self s bytes (.ok (some event, t)) parsed) : t.stat = .parsingBody := by
  cases parsed with
  | frame type body rest =>
    obtain ⟨parse, u, _, result, stat, _⟩ := answers
    obtain ⟨_, rfl⟩ := Prod.mk.inj (Except.ok.inj result)
    exact stat
  | incomplete =>
    obtain ⟨u, result, _⟩ := answers
    exact absurd (Prod.mk.inj (Except.ok.inj result)).1 (Option.some_ne_none event)
  | unknownIdentifier | unknownType =>
    have thrown : Except.ok (some event, t) = Except.error _ := answers
    contradiction

end Pack
end MsgProxy

namespace World
open Transition

/-- What the state of a session says about its request buffer. -/
def BufferFits (s : Session) : Prop :=
  match s.stat with
  | .waitingRequest | .handling => s.reqBuf.buf = none ∧ s.reqBuf.total = 0 ∧ s.reqBuf.last = 0
  | .parsingHead => s.reqBuf.buf.isSome = true ∧ s.reqBuf.total = 10 ∧ s.reqBuf.last < 10
  | .parsingBody => s.reqBuf.buf.isSome = true ∧
      (s.reqBuf.last < s.reqBuf.total ∨ s.reqBuf.total = 0)

def Represented (w : World) : Prop :=
  ∀ addr o, w.heap addr = some o → BufferFits o.session

/-- What `ReqCallback` does with a session, as far as the session lives. -/
def callbackActs (pb : Protobuf) (push : ReqEvent → Bool) (o : Object) : List Act :=
  packTrace pb o.session.noticed ++
    (NetGate.reqCallback pb push o).pushed.toList.map fun _ => .setState .handling

/-- What a step does with the state and the request buffer of the session at an address. -/
def actsOn (pb : Protobuf) (w : World) (addr : Nat) (o : Object) : Action → List Act
  | .reqCallback other => if other = addr then callbackActs pb (push w.waiting.length) o else []
  | .handleResults => (w.results.filter fun event => event.session.addr = addr).map fun _ =>
      .setState .waitingRequest
  | _ => []

/-- The acts lead from the session before to the session after, if it is still there,
and the size of a body is the one its header declared. -/
def Follows (acts : List Act) (o : Object) : Option Object → Prop
  | none => ∃ last, Runs o.session.stat acts last
  | some p => Runs o.session.stat acts p.session.stat ∧
      (p.session.stat = .parsingBody → p.session.reqBuf.total =
        if o.session.stat = .parsingBody then o.session.reqBuf.total
        else declaredSize (held o.session))

/-- Every session follows its cycle in the step. -/
def Orderly (pb : Protobuf) (db : Database) (w : World) (a : Action) : Prop :=
  ∀ v, step pb db w a = some v → ∀ addr o, w.heap addr = some o →
    Follows (actsOn pb w addr o a) o (v.heap addr)

theorem represented_of_rep {s : Session} (rep : Rep s) : BufferFits s := by
  unfold BufferFits
  cases rep with
  | idle idle buffer =>
    rcases idle with stat | stat <;> rw [stat, buffer] <;> exact ⟨rfl, rfl, rfl⟩
  | head bytes stat buffer partly =>
    have last : (holding headerSize bytes).last.toNat = bytes.length := holding_last (by
      have ten : headerSize.toNat = 10 := by decide
      omega)
    rw [stat, buffer]
    exact ⟨rfl, rfl, UInt32.lt_iff_toNat_lt.mpr (by rw [last]; exact partly)⟩
  | body size bytes stat buffer fits =>
    rw [stat, buffer]
    refine ⟨rfl, ?_⟩
    rcases fits with less | ⟨zero, _⟩
    · left
      rw [UInt32.lt_iff_toNat_lt, holding_last (Nat.le_of_lt less)]
      exact less
    · exact .inr zero

section Steps
variable {pb : Protobuf} {db : Database} {w v : World}

theorem represented_of_projects (projects : Projects pb w) : Represented w :=
  fun _ _ lives => represented_of_rep (projects.inv lives).rep

theorem runs_results {results : List ResEvent} {o : Object}
    (idle : results ≠ [] → o.session.stat ≠ .parsingHead ∧ o.session.stat ≠ .parsingBody) :
    Runs o.session.stat (results.map fun _ => .setState .waitingRequest)
      (results.foldl (fun o event => NetGate.handleResult event o) o).session.stat := by
  induction results generalizing o with
  | nil => exact .nil _
  | cons event rest ih =>
    obtain ⟨head, body⟩ := idle (List.cons_ne_nil _ _)
    apply Runs.setState
    · cases stat : o.session.stat with
      | waitingRequest => exact .inr rfl
      | handling => exact .inl rfl
      | parsingHead => exact absurd stat head
      | parsingBody => exact absurd stat body
    · exact ih (o := NetGate.handleResult event o) fun _ => ⟨State.noConfusion, State.noConfusion⟩

theorem reqBuf_results (results : List ResEvent) (o : Object) :
    (results.foldl (fun o event => NetGate.handleResult event o) o).session.reqBuf =
      o.session.reqBuf := by
  induction results generalizing o with
  | nil => rfl
  | cons event rest ih => exact ih (NetGate.handleResult event o)

theorem body_results {results : List ResEvent} {o : Object}
    (body : (results.foldl (fun o event => NetGate.handleResult event o) o).session.stat =
      .parsingBody) : o.session.stat = .parsingBody := by
  induction results generalizing o with
  | nil => exact body
  | cons event rest ih => exact State.noConfusion (ih body)

/-- A result waits only for a session that is handling its request. -/
theorem idle_of_results (projects : Projects pb w) {addr : Nat} {o : Object}
    (lives : w.heap addr = some o)
    (some : (w.results.filter fun event => event.session.addr = addr) ≠ []) :
    o.session.stat ≠ .parsingHead ∧ o.session.stat ≠ .parsingBody := by
  obtain ⟨event, member⟩ := List.exists_mem_of_ne_nil _ some
  obtain ⟨inResults, here⟩ := List.mem_filter.mp member
  have pending : Item.done event ∈ w.itemsAt addr :=
    mem_itemsAt.mpr ⟨List.mem_append_right _ (List.mem_map_of_mem inResults), of_decide_eq_true here⟩
  have busy : o.session.stat = .handling := by
    by_contra parsing
    rw [itemsAt_parsing projects lives parsing] at pending
    contradiction
  rw [busy]
  exact ⟨State.noConfusion, State.noConfusion⟩

/-- A step that leaves the state and the buffer of a session alone. -/
theorem follows_same {o p : Object} (stat : p.session.stat = o.session.stat)
    (buffer : p.session.reqBuf = o.session.reqBuf) : Follows [] o (some p) := by
  refine ⟨?_, fun body => ?_⟩
  · rw [stat]
    exact .nil _
  · rw [if_pos (stat.symm.trans body), buffer]

theorem follows_modify {addr other : Nat} {f : Object → Object} {o : Object}
    (lives : w.heap other = some o) (stat : (f o).session.stat = o.session.stat)
    (buffer : (f o).session.reqBuf = o.session.reqBuf) :
    Follows [] o (modify w.heap addr f other) := by
  by_cases here : other = addr
  · subst here
    rw [modify_same, lives]
    exact follows_same stat buffer
  · rw [modify_other here, lives]
    exact follows_same rfl rfl

/-- The read callback, on its own session. -/
theorem follows_reqCallback {push : ReqEvent → Bool} {o : Object} (rep : Rep o.session) :
    Follows (callbackActs pb push o) o (NetGate.reqCallback pb push o).object := by
  obtain ⟨last, runs, final⟩ := pack_runs (NetGate.rep_noticed rep)
  have gone : Runs o.session.stat (packTrace pb o.session.noticed ++ []) last := by
    rw [List.append_nil]
    exact runs
  cases result : pack pb o.self o.session.noticed with
  | error e =>
    simp only [callbackActs, NetGate.reqCallback, result]
    exact ⟨last, gone⟩
  | ok answer =>
    obtain ⟨event, t⟩ := answer
    have stat : t.stat = last := final event t result
    subst stat
    have parsing : o.session.stat ≠ .handling := by
      intro handling
      have thrown : pack pb o.self o.session.noticed = .error _ := if_pos handling
      rw [thrown] at result
      contradiction
    have answers : Answers pb o.self o.session.noticed (held o.session) (.ok (event, t))
        (packed (held o.session)) := result ▸ pack_answers (NetGate.rep_noticed rep) parsing
    cases event with
    | none =>
      obtain ⟨after, kept, _⟩ := answers_quiet answers
      simp only [callbackActs, NetGate.reqCallback, result]
      refine ⟨gone, fun body => ?_⟩
      rw [total_declared after body, kept]
      split
      · exact (total_declared rep ‹_›).symm
      · rfl
    | some event =>
      simp only [callbackActs, NetGate.reqCallback, result]
      split
      · refine ⟨runs.append (.setState (.inl ?_) (.nil _)), State.noConfusion⟩
        rw [answers_event answers]
        rfl
      · exact ⟨_, gone⟩

theorem orderly_of_projects (a : Action) (projects : Projects pb w) : Orderly pb db w a := by
  intro v enabled addr o lives
  cases stepped_of_step enabled with
  | accept other eventType free =>
    have differ : addr ≠ other := by
      rintro rfl
      rw [free] at lives
      contradiction
    change Follows [] o (Function.update w.heap other _ addr)
    rw [update_other differ, lives]
    exact follows_same rfl rfl
  | arrive | work | finish => exact follows_modify lives rfl rfl
  | take =>
    rw [lives]
    exact follows_same rfl rfl
  | reqCallback other p there =>
    by_cases here : other = addr
    · subst here
      obtain rfl := Option.some.inj (lives.symm.trans there)
      rw [callback_same, actsOn, if_pos rfl]
      exact follows_reqCallback (projects.inv lives).rep
    · rw [callback_other (Ne.symm here), lives, actsOn, if_neg here]
      exact follows_same rfl rfl
  | errCallback other events p there =>
    by_cases here : other = addr
    · subst here
      rw [callback_same, (errCallback_none events).1]
      exact ⟨_, .nil _⟩
    · rw [callback_other (Ne.symm here), lives]
      exact follows_same rfl rfl
  | handleResults =>
    have idle := idle_of_results projects lives
    change Follows _ o (w.results.foldl writeResult w.heap addr)
    rw [foldl_writeResult, lives]
    refine ⟨runs_results idle, fun body => ?_⟩
    rw [if_pos (body_results body), reqBuf_results]

end Steps

/-- In the runs that delete no session while its request is handled, the buffers fit their
states in every state, and the states follow their cycle through safe reads in every step. -/
theorem represented_of_spares (pb : Protobuf) (db : Database) (workers : Nat)
    (table : List Bytes) (actions : List Action)
    (spares : Along (step pb db) Spares (init workers table) actions) :
    Always (step pb db) Represented (init workers table) actions ∧
      Along (step pb db) (Orderly pb db) (init workers table) actions := by
  have safe := safe_run spares
  exact ⟨safe.mono fun _ safe => represented_of_projects safe.1,
    spares.mono safe fun _ a safe _ => orderly_of_projects a safe.1⟩

/-- A request arrives in three parts, the first of them inside the header. -/
def partsRun : List Action :=
  [.accept 4096 .kUnknown, .arrive 4096 (ascii "SHB"), .reqCallback 4096,
    .arrive 4096 (ascii "K" ++ [1, 0, 3, 0, 0, 0, 10]), .reqCallback 4096,
    .arrive 4096 [1, 49], .reqCallback 4096, .take 0, .work 0 0 ⟨[], 0⟩ .executed,
    .work 0 0 ⟨[], 0⟩ .executed, .work 0 0 ⟨[], 0⟩ .executed, .finish 0, .handleResults]

theorem represented_of_spares_parts :
    ∃ w o, run (step WireFormat.protobuf ⟨fun _ _ => none⟩) (init 1 []) partsRun = some w ∧
      w.heap 4096 = some o ∧ o.written = [evPhoneRes 100000 .kSuccess] ∧ Represented w ∧
      Along (step WireFormat.protobuf ⟨fun _ _ => none⟩) (Orderly WireFormat.protobuf
        ⟨fun _ _ => none⟩) (init 1 []) partsRun := by
  obtain ⟨w, o, ran, lives, written⟩ : ∃ w o,
      run (step WireFormat.protobuf ⟨fun _ _ => none⟩) (init 1 []) partsRun = some w ∧
        w.heap 4096 = some o ∧ o.written = [evPhoneRes 100000 .kSuccess] := ⟨_, _, rfl, rfl, rfl⟩
  obtain ⟨always, orderly⟩ := represented_of_spares WireFormat.protobuf ⟨fun _ _ => none⟩ 1 []
    partsRun (along_of_decide (by decide +kernel))
  exact ⟨w, o, ran, lives, written, always.final ran, orderly⟩

/-- A session that waits for a request with the buffer of one it has not read to its end. -/
theorem stale_result_keeps_buffer :
    ∃ w o, run (step WireFormat.protobuf ⟨fun _ _ => none⟩) (init 1 []) staleRun = some w ∧
      w.heap 4096 = some o ∧ o.session.stat = .waitingRequest ∧
      o.session.reqBuf = holding headerSize (ascii "SHB") ∧ ¬ Represented w := by
  obtain ⟨w, o, ran, lives, stat, _, buffer, _⟩ := staleRun_waits
  refine ⟨w, o, ran, lives, stat, buffer, fun represented => ?_⟩
  have fits := represented 4096 o lives
  rw [BufferFits, stat, buffer] at fits
  exact Option.some_ne_none _ fits.1

end World
end Shbk2
