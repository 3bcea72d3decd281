import Shbk2.Network
import Shbk2.ServerProgress

/-! Everyone logs in. Whoever else is connected, as long as the clients' connections hold and
the queue has room for them, each step of a client, of a thread or of the event loop brings
some dialogue nearer to its end, and where no step is left every client has printed both
lines. -/
namespace Shbk2
open Proto Transition

namespace Network

variable {pb : Protobuf} {db : Database} {n m : Network} {s t : Server} {w v : World} {peer : Peer}

/-- A client is told that it is connected, and of no error, and the queue has room when its
requests are read. -/
def Holds (n : Network) : Action → Prop
  | .client _ a => a.Calm
  | .server (.reqCallback _ _) => n.server.des.tp.waitingQueue.length < kDefaultMaxQueueSize
  | _ => True

def Steady (n : Network) (a : Action) : Prop := Patient n a ∧ Holds n a

/-- The steps that come to an end: what strangers do, new connections and wake-ups without a
notification are the choice of others. -/
def Action.Own : Action → Prop
  | .connect _ _ | .stranger _ => False
  | .client _ a => a.Calm
  | .server (.wakeUp _) => False
  | .server _ => True

/-- A dialogue goes on, or the client has printed both lines. -/
def Sound (w : World) (peer : Peer) : Prop :=
  (peer.dialogue w).Open ∨ w.conn peer.session = .closed ∧ 2 ≤ peer.client.printed.length

/-- What is left of a dialogue, its end included. -/
def left (w : World) (peer : Peer) : Nat :=
  match w.conn peer.session with
  | .live _ _ => (peer.dialogue w).effort + 1
  | .closed => 0

def effort (n : Network) : Nat :=
  11 * Tally.total (left n.server.world) n.peers + n.server.effort

theorem left_open (opened : (peer.dialogue w).Open) : left w peer = (peer.dialogue w).effort + 1 := by
  obtain ⟨⟨o, items, live⟩, _⟩ := opened
  have found : w.conn peer.session = .live o items := live
  simp only [left, found]

/-- What is left depends on the dialogue only. -/
theorem left_dialogue {later : Peer} (same : later.dialogue v = peer.dialogue w) :
    left v later = left w peer :=
  congrArg (fun d : Dialogue => match d.conn with
    | .live _ _ => d.effort + 1
    | .closed => 0) same

theorem sound_dialogue {later : Peer} (same : later.dialogue v = peer.dialogue w)
    (sound : Sound w peer) : Sound v later := by
  have conn : v.conn later.session = w.conn peer.session := congrArg Dialogue.conn same
  have client : later.client = peer.client := congrArg Dialogue.client same
  rcases sound with opened | ⟨closed, both⟩
  · exact .inl (same ▸ opened)
  · exact .inr ⟨conn.trans closed, client ▸ both⟩

theorem dialogue_conn (same : v.conn peer.session = w.conn peer.session) :
    peer.dialogue v = peer.dialogue w := by
  rw [Peer.dialogue, Peer.dialogue, same]

theorem left_closed (closed : w.conn peer.session = .closed) : left w peer = 0 := by
  simp only [left, closed]

/-- The end of a session comes after both lines. -/
theorem ends_late {a : Server.Action} {events : UInt16} {o : Object} {items : List Item}
    (patient : Patient n (.server a)) (member : peer ∈ n.peers)
    (live : n.server.world.conn peer.session = .live o items)
    (answered : .errCallback peer.session.addr events ∈ n.server.answer a) :
    2 ≤ peer.client.printed.length := by
  obtain ⟨lives, self, _⟩ := World.live_of_conn live
  have found : n.server.heap peer.session.addr = some o := lives
  obtain rfl := answer_errCallback answered
  exact patient peer member (by rw [found, Option.map_some, self])

/-- A read callback gives the threads a request more to handle, and wakes one of them. -/
theorem effort_reqCallback {addr : Nat} {woken : Option Nat} (inv : s.Inv)
    (enabled : s.step pb db (.reqCallback addr woken) = some t) :
    t.effort ≤ s.effort + 10 := by
  simp only [Server.step] at enabled
  split at enabled
  · obtain ⟨_, enabled⟩ := Option.ite_none_right_eq_some.mp enabled
    rw [inv.accepts] at enabled
    split at enabled
    · obtain rfl := Option.some.inj enabled
      exact Nat.le_add_right _ _
    · rename_i event pushed
      obtain ⟨⟨accepted, des⟩, dropped, rfl⟩ := Option.map_eq_some_iff.mp enabled
      obtain ⟨handler, found, _⟩ := inv.handler event.message
      have room := push_iff.mp (Server.reqCallback_pushed pushed)
      obtain ⟨threads, woke, rfl⟩ := Server.push_accepted found (inv.size ▸ room) dropped
      have awake : Tally.total id (Server.upcoming threads s.handling) ≤
          Tally.total id (Server.upcoming s.des.tp.threads s.handling) + 1 := by
        rcases ThreadPool.notifyOne_cases woke with rfl | ⟨i, get, rfl⟩
        · exact Nat.le_succ _
        · have woken := Server.upcoming_set_thread s.handling get .notified
          simp only [Cycle.upcoming] at woken
          omega
      simp only [Server.effort, List.length_append, List.length_singleton]
      omega
  · contradiction

theorem effort_arrive {addr : Nat} {bytes : Bytes}
    (received : s.step pb db (.arrive addr bytes) = some t) : t.effort = s.effort := by
  simp only [Server.step] at received
  split at received
  · obtain ⟨_, received⟩ := Option.ite_none_left_eq_some.mp received
    obtain rfl := Option.some.inj received
    rfl
  · contradiction

/-- A read callback that is due can run, with whatever thread it wakes. -/
theorem reqCallback_enabled (inv : s.Inv) {addr : Nat} {o : Object} (lives : s.heap addr = some o)
    (unread : o.session.bufev.unread = true) :
    ∃ woken t, s.step pb db (.reqCallback addr woken) = some t := by
  obtain ⟨woken, after, woke⟩ :=
    Monitor.notifyOne_enabled Cycle.phase .notified s.des.tp.threads
  refine ⟨woken, Option.ne_none_iff_exists'.mp ?_⟩
  simp only [Server.step, lives, unread, if_true]
  split
  · exact Option.some_ne_none _
  · rename_i event _
    obtain ⟨handler, found, _⟩ := inv.handler event.message
    simp only [DispatchEventsService.push, found, ThreadPool.drop]
    split
    · exact Option.some_ne_none _
    · simp only [ThreadPool.notifyOne, woke, Option.map_some]
      exact Option.some_ne_none _

section Progress
variable [Runtime] [Runtime.Documented]

/-- After both lines and the end of the session no step is left to the client. -/
theorem ended {d : Dialogue} (inv : d.Inv) (closed : d.conn = .closed)
    (both : 2 ≤ d.client.printed.length) {a : Dialogue.Action} (calm : a.Calm)
    (whole : Dialogue.Whole d a) : d.step a = none := by
  obtain ⟨received, transit, follows⟩ := inv
  have script := Dialogue.script_length follows.script
  rw [follows.printed, List.length_map] at both
  rw [List.length_append] at script
  obtain rfl : transit = [] := List.eq_nil_of_length_eq_zero (by omega)
  obtain ⟨input, down⟩ := List.append_eq_nil_iff.mp follows.heard
  cases a with
  | clientEvCb events =>
    have told : d.connected = true := by
      by_contra never
      have silent := follows.silent (Bool.eq_false_iff.mpr never)
      rw [List.append_nil] at silent
      rw [silent, List.length_nil] at both
      omega
    have connects : ¬ events &&& ClientSimulator.bevEventConnected = 0 := calm
    simp only [Dialogue.step, if_neg connects, told, if_true, ite_self]
  | up bytes =>
    simp only [Dialogue.step, closed, Conn.step, Option.map_none, ite_self]
  | server a =>
    cases a <;> simp only [Dialogue.step, closed, Conn.step, Option.map_none, ite_self]
  | down bytes =>
    refine if_pos ?_
    by_cases empty : bytes = []
    · exact .inr (.inl empty)
    · exact .inr (.inr fun part => empty (List.prefix_nil.mp (down ▸ part)))
  | clientRdCb =>
    have found : 10 + (MsgProxy.declaredSize d.client.input).toNat ≤ d.client.input.length := whole
    rw [input, List.length_nil] at found
    omega

/-! What one step does to one client. -/

section Peer
variable {a : Dialogue.Action} {d : Dialogue}

theorem client_left (inv : (peer.dialogue s.world).Inv) (sound : Sound s.world peer)
    (whole : Dialogue.Whole (peer.dialogue s.world) a) (calm : a.Calm)
    (stepped : (peer.dialogue s.world).step a = some d)
    (arrives : delivers db s peer.session a = some t) :
    Sound t.world (peer.after d) ∧ left t.world (peer.after d) < left s.world peer := by
  rcases sound with opened | ⟨closed, both⟩
  · obtain ⟨_, after, less⟩ := Dialogue.calm_step inv opened whole calm stepped
    have same : (peer.after d).dialogue t.world = d := after_dialogue (delivered stepped arrives).1
    rw [← same] at after less
    rw [left_open opened, left_open after]
    exact ⟨.inl after, Nat.succ_lt_succ less⟩
  · rw [ended inv closed both calm whole] at stepped
    contradiction

omit [Runtime.Documented] in
/-- The end of a session ends the dialogue. -/
theorem left_ends {events : UInt16} {later : Peer} (opened : (peer.dialogue w).Open)
    (stepped : (peer.dialogue w).step (.server (.errCallback events)) = some (later.dialogue v))
    (printed : 2 ≤ later.client.printed.length) : Sound v later ∧ left v later < left w peer := by
  obtain ⟨_, conn, inner, same⟩ := Dialogue.step_server stepped
  obtain ⟨⟨o, items, live⟩, _⟩ := id opened
  have closed : v.conn later.session = .closed := by
    have ended := congrArg Dialogue.conn same
    rw [live, Conn.step, Conn.afterCallback_errCallback] at inner
    exact ended.trans (Option.some.inj inner).symm
  rw [left_open opened, left_closed closed]
  exact ⟨.inr ⟨closed, printed⟩, Nat.succ_pos _⟩

/-- A callback that pushes finds room. -/
theorem room_holds {a : Server.Action} {addr : Nat} (inv : n.Inv) (holds : Holds n (.server a))
    (answered : .reqCallback addr ∈ n.server.answer a) :
    n.server.world.waiting.length < kDefaultMaxQueueSize := by
  obtain ⟨woken, rfl⟩ := answer_reqCallback answered
  rw [inv.server.size]
  exact holds

/-- A step of the server that a client sees brings its dialogue on, or ends it. -/
theorem server_left {a : Server.Action} (inv : n.Inv) (steady : Steady n (.server a))
    (accepts : ∀ addr eventType, a ≠ .accept addr eventType)
    (receives : ∀ addr bytes, a ≠ .arrive addr bytes)
    (enabled : n.server.step Runtime.protobuf db a = some t) (member : peer ∈ n.peers)
    (sound : Sound n.server.world peer) :
    Sound t.world (peer.receives (written n.server peer.session a)) ∧
      left t.world (peer.receives (written n.server peer.session a)) ≤ left n.server.world peer ∧
      ((∃ b ∈ n.server.answer a, World.Calls n.server.world peer.session b) →
        left t.world (peer.receives (written n.server peer.session a)) < left n.server.world peer) := by
  rcases server_dialogue inv accepts receives enabled peer with
    ⟨uncalled, same⟩ | ⟨b, c, answered, stands, stepped⟩
  · refine ⟨sound_dialogue same sound, Nat.le_of_eq (left_dialogue same), ?_⟩
    rintro ⟨b, answered, calls⟩
    exact absurd calls (uncalled b answered)
  · have opened : (peer.dialogue n.server.world).Open := by
      rcases sound with opened | ⟨closed, _⟩
      · exact opened
      · obtain ⟨_, conn, inner, _⟩ := Dialogue.step_server stepped
        rw [Peer.dialogue, closed] at inner
        contradiction
    have dialogue := inv.dialogues peer member
    -- All steps but the end of the session are calm.
    have calmly (calm : (Dialogue.Action.server c).Calm) :
        Sound t.world (peer.receives (written n.server peer.session a)) ∧
          left t.world (peer.receives (written n.server peer.session a)) < left n.server.world peer := by
      obtain ⟨_, after, less⟩ := Dialogue.calm_step dialogue opened
        (show Dialogue.Whole _ (.server c) from trivial) calm stepped
      rw [left_open opened, left_open after]
      exact ⟨.inl after, Nat.succ_lt_succ less⟩
    have both : Sound t.world (peer.receives (written n.server peer.session a)) ∧
        left t.world (peer.receives (written n.server peer.session a)) < left n.server.world peer := by
      cases c with
      | arrive => exact stands.elim
      | take | work | finish | handleResult => exact calmly trivial
      | reqCallback waitingQueueSize =>
        obtain ⟨rfl, rfl⟩ := stands
        exact calmly (room_holds inv steady.2 answered)
      | errCallback events =>
        obtain rfl : b = .errCallback peer.session.addr events := stands
        obtain ⟨⟨o, items, live⟩, _⟩ := id opened
        have printed := ends_late steady.1 member live answered
        exact left_ends opened stepped printed
    exact ⟨both.1, Nat.le_of_lt both.2, fun _ => both.2⟩

end Peer

/-! The whole network. -/

/-- Only the callbacks of a client's session give the threads more to do. -/
theorem effort_server {a : Server.Action} (inv : n.Inv) (own : n.own a = true)
    (enabled : n.server.step Runtime.protobuf db a = some t) (steps : (Action.server a).Own) :
    t.effort < n.server.effort ∨ t.effort ≤ n.server.effort + 10 ∧
      ∃ b ∈ n.server.answer a, ∃ peer ∈ n.peers, World.Calls n.server.world peer.session b := by
  have called {addr : Nat} (serves : n.serves addr = true) :
      ∃ peer ∈ n.peers, ∃ o, n.server.world.heap addr = some o ∧ o.self = peer.session := by
    obtain ⟨peer, member, same⟩ := serves_iff.mp serves
    exact ⟨peer, member, Option.map_eq_some_iff.mp same⟩
  cases a with
  | accept | arrive => contradiction
  | wakeUp => exact steps.elim
  | lock | work | execute | process | markIdle | handleResults =>
    refine .inl (Server.decreases _ _ _ ?_ enabled)
    trivial
  | reqCallback addr woken =>
    exact .inr ⟨effort_reqCallback inv.server enabled, _, List.mem_singleton_self _, called own⟩
  | errCallback addr events =>
    refine .inr ⟨?_, _, List.mem_singleton_self _, called own⟩
    simp only [Server.step] at enabled
    split at enabled
    · obtain rfl := Option.some.inj enabled
      exact Nat.le_add_right _ _
    · contradiction

/-- What holds of a network whose clients' connections hold. -/
structure Going (n : Network) : Prop where
  inv : n.Inv
  sound : ∀ peer ∈ n.peers, Sound n.server.world peer

theorem going_client {i : Nat} {a : Dialogue.Action} {d : Dialogue} (going : n.Going)
    (get : n.peers[i]? = some peer)
    (whole : Dialogue.Whole (peer.dialogue n.server.world) a) (calm : a.Calm)
    (stepped : (peer.dialogue n.server.world).step a = some d)
    (arrives : delivers db n.server peer.session a = some t) :
    (∀ later ∈ n.peers.set i (peer.after d), Sound t.world later) ∧
      effort ⟨t, n.peers.set i (peer.after d)⟩ < n.effort := by
  have member := List.mem_of_getElem? get
  obtain ⟨_, elsewhere, _, moved⟩ := delivered stepped arrives
  obtain ⟨sound, less⟩ := client_left (going.inv.dialogues peer member) (going.sound peer member)
    whole calm stepped arrives
  have same : t.effort = n.server.effort := by
    rcases moved with rfl | ⟨bytes, received⟩
    · rfl
    · exact effort_arrive received
  have other (j : Nat) (later : Peer) (differ : j ≠ i) (before : n.peers[j]? = some later) :
      later.dialogue t.world = later.dialogue n.server.world :=
    dialogue_conn (elsewhere _ (going.inv.other get before differ))
  constructor
  · intro later inside
    obtain ⟨j, found⟩ := List.getElem?_of_mem inside
    rcases Slots.getElem?_set_cases found with ⟨_, rfl⟩ | ⟨differ, before⟩
    · exact sound
    · exact sound_dialogue (other j later differ before)
        (going.sound later (List.mem_of_getElem? before))
  · have counted : Tally.total (left t.world) (n.peers.set i (peer.after d)) +
        left n.server.world peer =
      Tally.total (left n.server.world) n.peers + left t.world (peer.after d) :=
      Tally.total_set_of get _ fun j later differ before => left_dialogue (other j later differ before)
    simp only [effort, same]
    omega

theorem going_server {a : Server.Action} (going : n.Going) (steady : Steady n (.server a))
    (own : n.own a = true) (enabled : n.server.step Runtime.protobuf db a = some t) :
    (∀ later ∈ n.peers.map fun (peer : Peer) => peer.receives (written n.server peer.session a),
        Sound t.world later) ∧
      ((Action.server a).Own →
        effort ⟨t, n.peers.map fun (peer : Peer) => peer.receives (written n.server peer.session a)⟩ <
          n.effort) := by
  obtain ⟨accepts, receives⟩ := own_inner own
  have each {peer : Peer} (member : peer ∈ n.peers) :=
    server_left going.inv steady accepts receives enabled member (going.sound peer member)
  constructor
  · intro later inside
    obtain ⟨peer, member, rfl⟩ := List.mem_map.mp inside
    exact (each member).1
  · intro steps
    have le : ∀ peer ∈ n.peers, left t.world (peer.receives (written n.server peer.session a)) ≤
        left n.server.world peer := fun peer member => (each member).2.1
    have total : Tally.total (left t.world)
        (n.peers.map fun (peer : Peer) => peer.receives (written n.server peer.session a)) =
      Tally.total (fun peer => left t.world (peer.receives (written n.server peer.session a)))
        n.peers := Tally.total_map _ _ _
    simp only [effort, total]
    rcases effort_server going.inv own enabled steps with
      less | ⟨more, b, answered, peer, member, calls⟩
    · have mono := Tally.total_mono le
      omega
    · have less := Tally.total_lt le member ((each member).2.2 ⟨b, answered, calls⟩)
      omega

theorem going_step (n : Network) (a : Action) (m : Network) (going : n.Going) (steady : Steady n a)
    (enabled : step db n a = some m) : m.Going := by
  refine ⟨inv_step n a m going.inv steady.1 enabled, ?_⟩
  cases stepped_of_step enabled with
  | connect addr eventType t accepted =>
    obtain ⟨old, begins⟩ := conn_connect going.inv accepted
    intro peer member
    rcases List.mem_append.mp member with there | new
    · exact sound_dialogue (dialogue_conn (old peer there)) (going.sound peer there)
    · obtain rfl := List.mem_singleton.mp new
      exact .inl ⟨⟨_, _, begins⟩, rfl⟩
  | client i a peer d t get stepped delivered =>
    exact (going_client going get (steady.1 peer get) steady.2 stepped delivered).1
  | stranger a t foreign stepped =>
    intro peer member
    obtain ⟨_, projects, _⟩ := world_step going.inv steady.1 stepped
    exact sound_dialogue (dialogue_conn (conn_stranger going.inv foreign projects stepped member))
      (going.sound peer member)
  | server a t own stepped => exact (going_server going steady own stepped).1

theorem effort_lt (going : n.Going) {a : Action} (steady : Steady n a) (steps : a.Own)
    (enabled : step db n a = some m) : m.effort < n.effort := by
  cases stepped_of_step enabled with
  | connect | stranger => exact steps.elim
  | client i a peer d t get stepped delivered =>
    exact (going_client going get (steady.1 peer get) steps stepped delivered).2
  | server a t own stepped => exact (going_server going steady own stepped).2 steps

/-! Where no step is left. -/

/-- The end of a connection is nothing to wait for. -/
def Action.Due : Action → Prop
  | .connect _ _ | .stranger _ | .server (.wakeUp _) | .server (.errCallback _ _) => False
  | .client _ a => a.Calm
  | .server _ => True

def AtRest (db : Database) (n : Network) : Prop := Exhausted (guarded (step db) Steady) Action.Due n

section Rest

omit [Runtime.Documented] in
theorem server_enabled {a : Server.Action} (own : n.own a = true)
    (stepped : n.server.step Runtime.protobuf db a = some t) : step db n (.server a) ≠ none := by
  simp only [step, if_pos own, stepped, Option.map_some]
  exact Option.some_ne_none _

omit [Runtime.Documented] in
theorem AtRest.server (rest : n.AtRest db) :
    Exhausted (Server.step Runtime.protobuf db) Server.Action.Own n.server := by
  intro a steps
  by_contra enabled
  obtain ⟨t, stepped⟩ := Option.ne_none_iff_exists'.mp enabled
  cases a with
  | accept | arrive | reqCallback | errCallback | wakeUp => exact steps.elim
  | _ => exact server_enabled rfl stepped (Exhausted.disabled rest (by trivial) ⟨by trivial, by trivial⟩)

/-- With nothing in the pool, no dialogue can go on. -/
theorem AtRest.dialogue (rest : n.AtRest db) (inv : n.Inv) (empty : n.server.world.items = [])
    (member : peer ∈ n.peers) : (peer.dialogue n.server.world).AtRest := by
  intro a calm
  by_contra enabled
  obtain ⟨d, taken⟩ := Option.ne_none_iff_exists'.mp enabled
  obtain ⟨whole, stepped⟩ := guarded_eq_some.mp taken
  obtain ⟨i, get⟩ := List.getElem?_of_mem member
  have client (delivers_some : ∃ t, delivers db n.server peer.session a = some t) : False := by
    obtain ⟨t, arrives⟩ := delivers_some
    have patient : Patient n (.client i a) := by
      intro other found
      obtain rfl := Option.some.inj (get.symm.trans found)
      exact whole
    have none := Exhausted.disabled rest (a := .client i a) calm ⟨patient, calm⟩
    simp only [step, get, stepped, arrives, Option.bind_some, Option.map_some] at none
    contradiction
  cases a with
  | clientEvCb | down | clientRdCb => exact client ⟨_, rfl⟩
  | up bytes =>
    obtain ⟨_, sends⟩ := Option.ite_none_left_eq_some.mp stepped
    obtain ⟨conn, moved, _⟩ := Option.map_eq_some_iff.mp sends
    cases live : n.server.world.conn peer.session with
    | closed =>
      rw [Peer.dialogue, live] at moved
      contradiction
    | live o items =>
      have found : n.server.heap peer.session.addr = some o := (World.live_of_conn live).1
      rw [Peer.dialogue, live] at moved
      obtain ⟨some, _⟩ := Option.ite_none_left_eq_some.mp moved
      refine client (Option.ne_none_iff_exists'.mp ?_)
      simp only [delivers, Server.step, found, if_neg some]
      exact Option.some_ne_none _
  | server c =>
    obtain ⟨_, conn, inner, _⟩ := Dialogue.step_server stepped
    cases live : n.server.world.conn peer.session with
    | closed =>
      rw [Peer.dialogue, live] at inner
      contradiction
    | live o items =>
      obtain ⟨lives, self, rfl⟩ := World.live_of_conn live
      have none : n.server.world.itemsAt peer.session.addr = [] := by
        rw [World.itemsAt, empty]
        rfl
      rw [Peer.dialogue, live, none] at inner
      cases Conn.stepped_of_step inner with
      | arrive => contradiction
      | errCallback => exact calm.elim
      | take | work | finish | handleResult => simp_all
      | reqCallback _ unread =>
        obtain ⟨woken, t, enabled⟩ := reqCallback_enabled inv.server lives unread
        have found : n.server.heap peer.session.addr = some o := lives
        have serves : n.serves peer.session.addr = true :=
          serves_iff.mpr ⟨peer, member, by rw [found, Option.map_some, self]⟩
        have waiting : n.server.world.waiting.length = 0 := by
          have count := congrArg List.length empty
          simp only [World.items, World.pool, List.length_append, List.length_map,
            List.length_nil] at count
          omega
        refine server_enabled (a := .reqCallback peer.session.addr woken) serves enabled
          (Exhausted.disabled rest (by trivial) ⟨by trivial, ?_⟩)
        rw [Holds, ← inv.server.size, waiting]
        decide

/-- The threads sleep, nothing is left to read or to write, and no client has anything to do. -/
def Silent (n : Network) : Prop :=
  (∀ u ∈ n.server.des.tp.threads, u.phase = .asleep) ∧ n.server.des.tp.resultsQueue = [] ∧
    ∀ peer ∈ n.peers, Dialogue.Quiet peer.connected peer.client peer.down ∧
      ∀ o ∈ n.server.heap peer.session.addr, o.session.bufev.unread = false

theorem atRest_of_silent (inv : n.Inv) (silent : n.Silent) : n.AtRest db := by
  obtain ⟨threads, results, peers⟩ := silent
  have asleep : Exhausted (Server.step Runtime.protobuf db) Server.Action.Own n.server := by
    refine Server.exhausted_of_asleep (fun u member => ?_) inv.server.uncalled results
    have phase := threads u member
    cases u with
    | asleep => rfl
    | _ => contradiction
  intro a due
  by_contra enabled
  obtain ⟨m, taken⟩ := Option.ne_none_iff_exists'.mp enabled
  obtain ⟨_, enabled⟩ := guarded_eq_some.mp taken
  cases stepped_of_step enabled with
  | connect | stranger => exact due.elim
  | client i a peer d t get stepped delivered =>
    have calm : ∀ b, a ≠ .server b := by
      rintro b rfl
      contradiction
    rw [Dialogue.quiet_client (peers peer (List.mem_of_getElem? get)).1 due calm] at stepped
    contradiction
  | server a t own stepped =>
    cases a with
    | accept | arrive => contradiction
    | wakeUp | errCallback => exact due.elim
    | lock | work | execute | process | markIdle | handleResults =>
      rw [asleep _ (by trivial)] at stepped
      contradiction
    | reqCallback addr woken =>
      obtain ⟨peer, member, same⟩ := serves_iff.mp own
      obtain ⟨o, lives, self⟩ := Option.map_eq_some_iff.mp same
      obtain rfl : peer.session.addr = addr := self ▸ (inv.projects addr o lives).1
      simp [Server.step, lives, (peers peer member).2 o lives] at stepped

end Rest

section Run
variable {hardwareConcurrency : Nat} {handling : Nat → Position} {table : List Bytes}

theorem going_init : (init hardwareConcurrency handling table).Going :=
  ⟨inv_init hardwareConcurrency handling table, fun _ member => absurd member List.not_mem_nil⟩

omit [Runtime.Documented] in
/-- The server of a network is a server. -/
theorem server_reachable {actions : List Action}
    (ran : run (step db) (init hardwareConcurrency handling table) actions = some n) :
    Reachable (Server.step Runtime.protobuf db) (.init hardwareConcurrency handling table) n.server := by
  refine run_invariant (P := fun n => Reachable (Server.step Runtime.protobuf db)
    (.init hardwareConcurrency handling table) n.server) ?_ (.refl _) ran
  intro n a m reached enabled
  cases stepped_of_step enabled with
  | connect addr eventType t accepted => exact reached.next accepted
  | client i a peer d t get stepped arrives =>
    obtain ⟨_, _, _, rfl | ⟨bytes, received⟩⟩ := delivered stepped arrives
    · exact reached
    · exact reached.next received
  | stranger a t _ stepped | server a t _ stepped => exact reached.next stepped

/-- With threads, clients that read whole responses, whose connections hold until they have
printed both lines and that find room in the queue, and strangers whose sessions are not
deleted while their requests are handled: from any state the clients, the threads and the
event loop come to an end of their steps, in whatever order they take them, and where no step
is left every client has printed an identifier of six digits and that its login succeeded,
whatever strangers sent before. -/
theorem everyone_logs_in (some_thread : 0 < hardwareConcurrency) {actions more : List Action}
    (ran : run (step db) (init hardwareConcurrency handling table) actions = some n)
    (steady : Along (step db) Steady (init hardwareConcurrency handling table) (actions ++ more))
    (steps : ∀ a ∈ more, a.Own) (after : run (step db) n more = some m) :
    more.length ≤ n.effort ∧ (m.AtRest db → ∀ peer ∈ m.peers, ∃ identifier,
      SixDigits identifier ∧
        peer.client.printed = [.dynamicCode identifier, .result 200 (ascii "ok.")]) := by
  obtain ⟨first, later⟩ := (along_append ran).mp steady
  have going : n.Going := (always_of_along going_step going_init first).final ran
  have always : Always (step db) Going n more := always_of_along going_step going later
  have guarded : Along (step db) (fun n a => n.Going ∧ Steady n a) n more :=
    later.mono always fun _ _ going steady => ⟨going, steady⟩
  have decreases : Decreases (Transition.guarded (step db) fun n a => n.Going ∧ Steady n a)
      Action.Own effort := by
    intro n a m steps taken
    obtain ⟨⟨going, steady⟩, enabled⟩ := guarded_eq_some.mp taken
    exact effort_lt going steady steps enabled
  have bound := decreases.run steps (run_guarded.mpr ⟨after, guarded⟩)
  refine ⟨by omega, fun rest peer member => ?_⟩
  obtain ⟨inv, sound⟩ := always.final after
  have whole : run (step db) (init hardwareConcurrency handling table) (actions ++ more) = some m := by
    rw [run_append, ran]
    exact after
  obtain ⟨kept, pool⟩ := Server.pool_reachable (server_reachable whole)
  have empty := Server.items_nil kept some_thread pool rest.server
  have dialogue := inv.dialogues peer member
  rcases sound peer member with opened | ⟨_, both⟩
  · exact Dialogue.printed_all (rest.dialogue inv empty member) opened dialogue
  · obtain ⟨identifier, sixDigits, printed⟩ := Dialogue.printed_script dialogue
    exact ⟨identifier, sixDigits, printed.eq_of_length (Nat.le_antisymm printed.length_le both)⟩

end Run
end Progress

/-! Guards that can be evaluated. -/

instance (connected : Bool) (client : ClientSimulator.Client) (down : Bytes) :
    Decidable (Dialogue.Quiet connected client down) := inferInstanceAs (Decidable (_ ∧ _))

instance (n : Network) : Decidable n.Silent := inferInstanceAs (Decidable (_ ∧ _))

instance (a : Dialogue.Action) : Decidable a.Calm :=
  match a with
  | .clientEvCb events =>
    inferInstanceAs (Decidable (events &&& ClientSimulator.bevEventConnected ≠ 0))
  | .server (.errCallback _) => isFalse id
  | .server (.reqCallback waitingQueueSize) =>
    inferInstanceAs (Decidable (waitingQueueSize < kDefaultMaxQueueSize))
  | .up _ | .down _ | .clientRdCb | .server (.arrive _) | .server (.take _) | .server (.work _ _ _)
  | .server (.finish _) | .server (.handleResult _) => isTrue trivial

instance (n : Network) (a : Action) : Decidable (Holds n a) :=
  match a with
  | .client _ a => inferInstanceAs (Decidable a.Calm)
  | .server (.reqCallback _ _) => inferInstanceAs
      (Decidable (n.server.des.tp.waitingQueue.length < kDefaultMaxQueueSize))
  | .connect _ _ | .stranger _ | .server (.accept _ _) | .server (.arrive _ _) | .server (.lock _)
  | .server (.errCallback _ _) | .server (.wakeUp _) | .server (.work _ _ _ _) | .server (.execute _) | .server (.process _)
  | .server (.markIdle _) | .server .handleResults => isTrue trivial

instance (n : Network) (a : Action) : Decidable (Steady n a) :=
  inferInstanceAs (Decidable (Patient n a ∧ Holds n a))

section Witness
open scoped WireFormat

/-- The client has its identifier and logs in with it, and the thread sleeps. -/
def loginPart : List Action :=
  [.server (.markIdle 0), .client 0 (.up (Dialogue.loginFrame 123456).bytes),
    .server (.reqCallback 8192 none), .server (.lock 0),
    .server (.work 0 0 ⟨[], 0⟩ .noHandler), .server (.work 0 0 ⟨[], 0⟩ .noHandler),
    .server (.work 0 0 ⟨[], 0⟩ .executed), .server (.work 0 0 ⟨[], 0⟩ .executed),
    .server (.execute 0), .server (.process 0), .server (.markIdle 0), .server (.lock 0),
    .server .handleResults, .client 0 (.down (package (serializable (evLoginRes .kSuccess)))),
    .client 0 .clientRdCb]

theorem everyone_logs_in_stranger : ∃ n m peer, run (step ⟨fun _ _ => none⟩)
      (init 1 (fun _ => .returned (evLoginRes .kSuccess)) []) strangerRun = some n ∧
    run (step ⟨fun _ _ => none⟩) n loginPart = some m ∧ loginPart.length ≤ n.effort ∧
    m.AtRest ⟨fun _ _ => none⟩ ∧ m.peers = [peer] ∧ ∃ identifier, SixDigits identifier ∧
      peer.client.printed = [.dynamicCode identifier, .result 200 (ascii "ok.")] := by
  have checked : (run (step ⟨fun _ _ => none⟩) (init 1 (fun _ => .returned (evLoginRes .kSuccess)) [])
      (strangerRun ++ loginPart)).map (fun m => (decide m.Silent, m.peers.length)) =
        some (true, 1) := by decide +kernel
  obtain ⟨m, whole, final⟩ := Option.map_eq_some_iff.mp checked
  obtain ⟨silent, one⟩ := Prod.mk.inj final
  obtain ⟨peer, alone⟩ := List.length_eq_one_iff.mp one
  obtain ⟨n, ran, after⟩ := Option.bind_eq_some_iff.mp ((run_append _ _ _).symm.trans whole)
  have steady : Along (step ⟨fun _ _ => none⟩) Steady
      (init 1 (fun _ => .returned (evLoginRes .kSuccess)) []) (strangerRun ++ loginPart) :=
    along_of_decide (by decide +kernel)
  have steps : ∀ a ∈ loginPart, a.Own := by
    simp [loginPart, Action.Own, Dialogue.Action.Calm]
  obtain ⟨bound, logged_in⟩ := everyone_logs_in Nat.one_pos ran steady steps after
  have inv : m.Inv := ((always_of_along going_step going_init steady).final whole).inv
  have rest : m.AtRest ⟨fun _ _ => none⟩ := atRest_of_silent inv (of_decide_eq_true silent)
  have member : peer ∈ m.peers := alone ▸ List.mem_singleton_self peer
  exact ⟨n, m, peer, ran, after, bound, rest, alone, logged_in rest peer member⟩

end Witness

end Network
end Shbk2
