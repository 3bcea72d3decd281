import Shbk2.Capacity
import Shbk2.Correspondence
import Shbk2.DialogueProgress
import Shbk2.Peers

/-! Any number of client simulators, whoever else connects, and the server with its thread
pool. Where no session is deleted while its request is handled, nothing in the pool ever
points to a deleted one, and a client and its session lead a dialogue which the others do not
disturb, whatever they send. -/
namespace Shbk2
open Proto Transition

/-- A client, the session it was accepted with, and what was written for it and has not
arrived. -/
structure Peer where
  session : SessionPtr
  client : ClientSimulator.Client
  connected : Bool
  down : Bytes

namespace Peer

def new (session : SessionPtr) : Peer := ⟨session, .new, false, []⟩

/-- The client with its session on the server. -/
def dialogue (peer : Peer) (w : World) : Dialogue :=
  ⟨peer.client, peer.connected, w.conn peer.session, peer.down⟩

def after (peer : Peer) (d : Dialogue) : Peer :=
  { peer with client := d.client, connected := d.connected, down := d.down }

def receives (peer : Peer) (bytes : Bytes) : Peer := { peer with down := peer.down ++ bytes }

end Peer

/-- The server and the clients. Other sessions belong to strangers. -/
structure Network where
  server : Server
  peers : List Peer

namespace Network

/-- The steps of the clients, of the strangers and of the server by itself. -/
inductive Action where
  | connect (addr : Nat) (eventType : EventType)
  | client (i : Nat) (a : Dialogue.Action)
  | stranger (a : Server.Action)
  | server (a : Server.Action)

def init (hardwareConcurrency : Nat) (handling : Nat → Position) (table : List Bytes) : Network :=
  ⟨.init hardwareConcurrency handling table, []⟩

def sessions (n : Network) : List SessionPtr := n.peers.map (·.session)

/-- The session at an address is a client's. -/
def serves (n : Network) (addr : Nat) : Bool :=
  n.peers.any fun peer => decide ((n.server.heap addr).map (·.self) = some peer.session)

/-- Strangers connect, send, and the callbacks of their sessions run. -/
def foreign (n : Network) : Server.Action → Bool
  | .accept _ _ => true
  | .arrive addr _ | .reqCallback addr _ | .errCallback addr _ => !n.serves addr
  | _ => false

/-- The callbacks of the clients' sessions run, and what the threads and the event loop do
for anybody. -/
def own (n : Network) : Server.Action → Bool
  | .accept _ _ | .arrive _ _ => false
  | .reqCallback addr _ | .errCallback addr _ => n.serves addr
  | _ => true

section Steps
variable {pb : Protobuf} {db : Database} {n : Network} {s t : Server} {peer : Peer}

theorem serves_iff {n : Network} {addr : Nat} : n.serves addr = true ↔
    ∃ peer ∈ n.peers, (n.server.heap addr).map (·.self) = some peer.session := by
  simp only [serves, List.any_eq_true, decide_eq_true_eq]

theorem receives_nil (peer : Peer) : peer.receives [] = peer := by
  rw [Peer.receives, List.append_nil]

/-- A callback of the abstract server is that callback of the server. -/
theorem answer_reqCallback {a : Server.Action} {addr : Nat}
    (answered : .reqCallback addr ∈ s.answer a) : ∃ woken, a = .reqCallback addr woken := by
  cases a with
  | reqCallback other woken =>
    obtain rfl := World.Action.reqCallback.inj (List.mem_singleton.mp answered)
    exact ⟨woken, rfl⟩
  | lock i =>
    simp only [Server.answer] at answered
    split at answered
    · contradiction
    · exact World.Action.noConfusion (List.mem_singleton.mp answered)
  | wakeUp | execute | markIdle => exact absurd answered List.not_mem_nil
  | _ => exact World.Action.noConfusion (List.mem_singleton.mp answered)

theorem answer_errCallback {a : Server.Action} {addr : Nat} {events : UInt16}
    (answered : .errCallback addr events ∈ s.answer a) : a = .errCallback addr events := by
  cases a with
  | errCallback other others =>
    obtain ⟨rfl, rfl⟩ := World.Action.errCallback.inj (List.mem_singleton.mp answered)
    rfl
  | lock i =>
    simp only [Server.answer] at answered
    split at answered
    · contradiction
    · exact World.Action.noConfusion (List.mem_singleton.mp answered)
  | wakeUp | execute | markIdle => exact absurd answered List.not_mem_nil
  | _ => exact World.Action.noConfusion (List.mem_singleton.mp answered)

theorem own_inner {a : Server.Action} (own : n.own a = true) :
    (∀ addr eventType, a ≠ .accept addr eventType) ∧ ∀ addr bytes, a ≠ .arrive addr bytes := by
  constructor <;> rintro _ _ rfl <;> exact Bool.false_ne_true own

theorem accept_some {addr : Nat} {eventType : EventType}
    (enabled : s.step pb db (.accept addr eventType) = some t) :
    s.heap addr = none ∧ t.allocations = s.allocations + 1 := by
  simp only [Server.step] at enabled
  split at enabled
  · contradiction
  · rename_i free
    obtain rfl := Option.some.inj enabled
    exact ⟨free, rfl⟩

theorem spares_accept {addr : Nat} {eventType : EventType} :
    Server.Answered World.Spares s (.accept addr eventType) :=
  Server.answered_spares (fun _ _ => Server.Action.noConfusion) fun _ _ => Server.Action.noConfusion

theorem allocations_server {a : Server.Action} (accepts : ∀ addr eventType, a ≠ .accept addr eventType)
    (enabled : s.step pb db a = some t) :
    t.allocations = s.allocations := by
  cases a with
  | accept addr eventType => exact absurd rfl (accepts addr eventType)
  | _ =>
    simp only [Server.step] at enabled
    repeat' split at enabled
    all_goals first
      | contradiction
      | (obtain rfl := Option.some.inj enabled; rfl)
      | (obtain ⟨_, _, rfl⟩ := Option.map_eq_some_iff.mp enabled; rfl)
      | (obtain ⟨_, _, enabled⟩ := Option.bind_eq_some_iff.mp enabled
         obtain ⟨_, _, rfl⟩ := Option.map_eq_some_iff.mp enabled
         rfl)

theorem allocations_le {a : Server.Action} (enabled : s.step pb db a = some t) :
    s.allocations ≤ t.allocations := by
  by_cases accepts : ∀ addr eventType, a ≠ .accept addr eventType
  · exact Nat.le_of_eq (allocations_server accepts enabled).symm
  · push Not at accepts
    obtain ⟨addr, eventType, rfl⟩ := accepts
    rw [(accept_some enabled).2]
    exact Nat.le_succ _

theorem after_dialogue {w : World} {peer : Peer} {d : Dialogue} (same : w.conn peer.session = d.conn) :
    (peer.after d).dialogue w = d := by
  rw [Peer.dialogue, Peer.after, same]

end Steps

section Step
variable [Runtime]

/-- What a client sends arrives at its session; its other steps are its own. -/
def delivers (db : Database) (s : Server) (session : SessionPtr) : Dialogue.Action → Option Server
  | .up bytes => s.step Runtime.protobuf db (.arrive session.addr bytes)
  | .server _ => none
  | .clientEvCb _ | .down _ | .clientRdCb => some s

/-- The bytes that a step of the server writes to a session. -/
def written (s : Server) (session : SessionPtr) : Server.Action → Bytes
  | .handleResults => s.world.writes session
  | _ => []

def step (db : Database) (n : Network) : Action → Option Network
  | .connect addr eventType =>
    (n.server.step Runtime.protobuf db (.accept addr eventType)).map fun server =>
      ⟨server, n.peers ++ [.new ⟨addr, n.server.allocations⟩]⟩
  | .client i a =>
    n.peers[i]?.bind fun peer => ((peer.dialogue n.server.world).step a).bind fun d =>
      (delivers db n.server peer.session a).map fun server => ⟨server, n.peers.set i (peer.after d)⟩
  | .stranger a =>
    if n.foreign a then (n.server.step Runtime.protobuf db a).map fun server => ⟨server, n.peers⟩
    else none
  | .server a =>
    if n.own a then (n.server.step Runtime.protobuf db a).map fun server =>
      ⟨server, n.peers.map fun (peer : Peer) => peer.receives (written n.server peer.session a)⟩
    else none

/-- What each step does. -/
inductive Stepped (db : Database) (n : Network) : Action → Network → Prop where
  | connect (addr : Nat) (eventType : EventType) (t : Server) :
      n.server.step Runtime.protobuf db (.accept addr eventType) = some t →
      Stepped db n (.connect addr eventType) ⟨t, n.peers ++ [.new ⟨addr, n.server.allocations⟩]⟩
  | client (i : Nat) (a : Dialogue.Action) (peer : Peer) (d : Dialogue) (t : Server) :
      n.peers[i]? = some peer → (peer.dialogue n.server.world).step a = some d →
      delivers db n.server peer.session a = some t →
      Stepped db n (.client i a) ⟨t, n.peers.set i (peer.after d)⟩
  | stranger (a : Server.Action) (t : Server) : n.foreign a = true →
      n.server.step Runtime.protobuf db a = some t → Stepped db n (.stranger a) ⟨t, n.peers⟩
  | server (a : Server.Action) (t : Server) : n.own a = true →
      n.server.step Runtime.protobuf db a = some t → Stepped db n (.server a)
        ⟨t, n.peers.map fun (peer : Peer) => peer.receives (written n.server peer.session a)⟩

theorem stepped_of_step {db : Database} {n m : Network} {a : Action} (enabled : step db n a = some m) :
    Stepped db n a m := by
  cases a with
  | connect addr eventType =>
    obtain ⟨t, accepted, rfl⟩ := Option.map_eq_some_iff.mp enabled
    exact .connect addr eventType t accepted
  | client i a =>
    obtain ⟨peer, get, enabled⟩ := Option.bind_eq_some_iff.mp enabled
    obtain ⟨d, stepped, enabled⟩ := Option.bind_eq_some_iff.mp enabled
    obtain ⟨t, delivered, rfl⟩ := Option.map_eq_some_iff.mp enabled
    exact .client i a peer d t get stepped delivered
  | stranger a =>
    obtain ⟨foreign, enabled⟩ := Option.ite_none_right_eq_some.mp enabled
    obtain ⟨t, stepped, rfl⟩ := Option.map_eq_some_iff.mp enabled
    exact .stranger a t foreign stepped
  | server a =>
    obtain ⟨own, enabled⟩ := Option.ite_none_right_eq_some.mp enabled
    obtain ⟨t, stepped, rfl⟩ := Option.map_eq_some_iff.mp enabled
    exact .server a t own stepped

/-- A step of the server by itself is one step of the abstract server, or none. -/
theorem answer_inner {pb : Protobuf} {db : Database} {s t : Server} {a : Server.Action}
    (enabled : s.step pb db a = some t)
    (accepts : ∀ addr eventType, a ≠ .accept addr eventType)
    (receives : ∀ addr bytes, a ≠ .arrive addr bytes) :
    (s.answer a = [] ∧ ∀ p, written s p a = []) ∨
      ∃ b, s.answer a = [b] ∧ b.Inner ∧ ¬ s.world.Returned b ∧
        ∀ p, written s p a = s.world.written p b := by
  cases a with
  | accept addr eventType => exact absurd rfl (accepts addr eventType)
  | arrive addr bytes => exact absurd rfl (receives addr bytes)
  | wakeUp | execute | markIdle => exact .inl ⟨rfl, fun _ => rfl⟩
  | reqCallback addr => exact .inr ⟨.reqCallback addr, rfl, trivial, id, fun _ => rfl⟩
  | errCallback addr events => exact .inr ⟨.errCallback addr events, rfl, trivial, id, fun _ => rfl⟩
  | process i => exact .inr ⟨.finish i, rfl, trivial, id, fun _ => rfl⟩
  | handleResults => exact .inr ⟨.handleResults, rfl, trivial, id, fun _ => rfl⟩
  | lock i =>
    by_cases empty : s.des.tp.waitingQueue = []
    · exact .inl ⟨if_pos empty, fun _ => rfl⟩
    · exact .inr ⟨.take i, if_neg empty, trivial, id, fun _ => rfl⟩
  | work i rand garbage outcome =>
    refine .inr ⟨.work i rand garbage outcome, rfl, trivial, ?_, fun _ => rfl⟩
    rintro ⟨event, response, busy⟩
    simp only [Server.step] at enabled
    split at enabled
    · contradiction
    · rename_i _ position task get unreturned
      have same := Option.some.inj ((Server.workers_get get).symm.trans busy)
      exact unreturned response (Task.mk.inj (Option.some.inj same)).2
    · contradiction

end Step

/-- A client reads whole responses, its connection does not end before it has printed both
lines, and no callback deletes a stranger's session whose request is handled. -/
def Patient (n : Network) : Action → Prop
  | .client i a => ∀ peer ∈ n.peers[i]?, Dialogue.Whole (peer.dialogue n.server.world) a
  | .server (.errCallback addr _) => ∀ peer ∈ n.peers,
      (n.server.heap addr).map (·.self) = some peer.session → 2 ≤ peer.client.printed.length
  | .stranger a => Server.Answered World.Spares n.server a
  | _ => True

section Undisturbed
variable [Runtime] [Runtime.Documented]

/-- What holds between the steps. -/
structure Inv (n : Network) : Prop where
  server : n.server.Inv
  projects : World.Projects Runtime.protobuf n.server.world
  safe : n.server.world.NoDangling
  distinct : n.sessions.Nodup
  older : ∀ p ∈ n.sessions, p.alloc < n.server.allocations
  dialogues : ∀ peer ∈ n.peers, (peer.dialogue n.server.world).Inv

section Dialogues
variable {d : Dialogue} {received transit : List Response} {o : Object} {items : List Item}

/-- A callback finds no request of its session in the pool. -/
theorem spares_unread (inv : d.Inv) (live : d.conn = .live o items)
    (unread : o.session.bufev.unread = true) : o.session.stat ≠ .handling := by
  obtain ⟨received, transit, follows⟩ := inv
  intro stat
  rw [(follows.live o items live).busy stat] at unread
  contradiction

/-- After the second line nothing is left of the dialogue. -/
theorem settled (inv : d.Inv) (live : d.conn = .live o items) (both : 2 ≤ d.client.printed.length) :
    o.session.stat ≠ .handling := by
  obtain ⟨received, transit, follows⟩ := inv
  have upstream := follows.live o items live
  have script := Dialogue.script_length follows.script
  rw [follows.printed, List.length_map] at both
  obtain ⟨todo, _, pushed, few, _⟩ := upstream.todo
  obtain ⟨_, _, _, record, busy⟩ := upstream.conn.record
  have written := congrArg List.length upstream.written
  have asked := Dialogue.sent_few d.connected received
  rw [List.length_append] at script written
  intro stat
  rw [if_pos stat] at busy
  omega

end Dialogues

section Seen
variable {db : Database} {n : Network} {s t : Server} {w v : World} {peer : Peer}

omit [Runtime.Documented] in
/-- What a session sees of a step is a step of its dialogue. -/
theorem dialogue_seen {b : World.Action} (seen : World.Seen Runtime.protobuf w v b peer.session) :
    ¬ World.Calls w peer.session b ∧
        (peer.receives (w.written peer.session b)).dialogue v = peer.dialogue w ∨
      ∃ c, World.Stands w peer.session b c ∧ (peer.dialogue w).step (.server c) =
        some ((peer.receives (w.written peer.session b)).dialogue v) := by
  cases seen with
  | unchanged uncalled same quiet =>
    rw [quiet, receives_nil]
    exact .inl ⟨uncalled, congrArg (Dialogue.mk _ _ · _) same⟩
  | stepped c stands continues stepped wrote =>
    refine .inr ⟨c, stands, ?_⟩
    have taken : (if Dialogue.returned (w.conn peer.session) c then none
        else (Conn.step Runtime.protobuf (w.conn peer.session) c).map fun conn =>
          (⟨peer.client, peer.connected, conn,
            peer.down ++ Dialogue.writes (w.conn peer.session) c⟩ : Dialogue)) =
        some ((peer.receives (w.written peer.session b)).dialogue v) := by
      rw [if_neg continues, stepped, wrote]
      rfl
    cases c with
    | arrive => exact stands.elim
    | _ => exact taken

end Seen

section Inv
variable {db : Database} {n m : Network} {s t : Server} {peer : Peer}

theorem inv_init (hardwareConcurrency : Nat) (handling : Nat → Position) (table : List Bytes) :
    (init hardwareConcurrency handling table).Inv := by
  obtain ⟨same, inv⟩ := Server.world_init hardwareConcurrency handling table
  have start : World.Projects Runtime.protobuf (World.init hardwareConcurrency table) ∧
      (World.init hardwareConcurrency table).NoDangling := World.safe_init hardwareConcurrency table
  rw [← same] at start
  refine ⟨inv, start.1, start.2, List.nodup_nil, fun _ member => ?_, fun _ member => ?_⟩
  · exact absurd member List.not_mem_nil
  · exact absurd member List.not_mem_nil

/-- The server keeps its part of the invariant where it deletes no session whose request is
handled. -/
theorem world_step (inv : n.Inv) {a : Server.Action}
    (spares : Server.Answered World.Spares n.server a)
    (enabled : n.server.step Runtime.protobuf db a = some t) :
    t.Inv ∧ World.Projects Runtime.protobuf t.world ∧ t.world.NoDangling := by
  obtain ⟨ran, kept⟩ := Server.answers inv.server enabled
  exact ⟨kept, (always_of_along World.noDangling_step ⟨inv.projects, inv.safe⟩
    (Server.along_answer spares)).final ran⟩

/-- The same clients with the same sessions. -/
theorem Inv.same (inv : n.Inv) {peers : List Peer}
    (kept : t.Inv ∧ World.Projects Runtime.protobuf t.world ∧ t.world.NoDangling)
    (sessions : peers.map (·.session) = n.sessions) (older : n.server.allocations ≤ t.allocations)
    (dialogues : ∀ later ∈ peers, (later.dialogue t.world).Inv) : Inv ⟨t, peers⟩ where
  server := kept.1
  projects := kept.2.1
  safe := kept.2.2
  distinct := by
    rw [Network.sessions, sessions]
    exact inv.distinct
  older p member := by
    rw [Network.sessions, sessions] at member
    exact Nat.lt_of_lt_of_le (inv.older p member) older
  dialogues := dialogues

/-- Clients by different numbers have different sessions. -/
theorem Inv.other (inv : n.Inv) {i j : Nat} {later : Peer} (get : n.peers[i]? = some peer)
    (there : n.peers[j]? = some later) (differ : j ≠ i) : later.session ≠ peer.session := by
  intro same
  have first : n.sessions[i]? = some peer.session := by rw [sessions, List.getElem?_map, get]; rfl
  have second : n.sessions[j]? = some peer.session := by
    rw [sessions, List.getElem?_map, there, Option.map_some, same]
  have bound := (List.getElem?_eq_some_iff.mp second).1
  exact differ ((List.getElem?_inj bound inv.distinct).mp (second.trans first.symm))

theorem Inv.mine (inv : n.Inv) (member : peer ∈ n.peers) :
    peer.session.alloc < n.server.allocations :=
  inv.older _ (List.mem_map_of_mem member)

/-- A new session is not the session of any client so far. -/
theorem conn_connect {addr : Nat} {eventType : EventType} (inv : n.Inv)
    (enabled : n.server.step Runtime.protobuf db (.accept addr eventType) = some t) :
    (∀ peer ∈ n.peers, t.world.conn peer.session = n.server.world.conn peer.session) ∧
      t.world.conn ⟨addr, n.server.allocations⟩ = .init ⟨addr, n.server.allocations⟩ eventType := by
  simp only [Server.step] at enabled
  split at enabled
  · contradiction
  · rename_i free
    obtain rfl := Option.some.inj enabled
    constructor
    · intro peer member
      exact World.conn_accept (w := n.server.world) eventType free (Nat.ne_of_lt (inv.mine member))
    · exact World.conn_accepted (w := n.server.world) eventType
        (World.fresh_of_noDangling inv.safe free)

theorem inv_connect {addr : Nat} {eventType : EventType} (inv : n.Inv)
    (enabled : n.server.step Runtime.protobuf db (.accept addr eventType) = some t) :
    Inv ⟨t, n.peers ++ [.new ⟨addr, n.server.allocations⟩]⟩ := by
  obtain ⟨kept, projects, safe⟩ := world_step inv spares_accept enabled
  obtain ⟨old, begins⟩ := conn_connect inv enabled
  have more : t.allocations = n.server.allocations + 1 := (accept_some enabled).2
  have sessions : (n.peers ++ [Peer.new ⟨addr, n.server.allocations⟩]).map (·.session) =
      n.sessions ++ [⟨addr, n.server.allocations⟩] := List.map_append
  refine ⟨kept, projects, safe, ?_, ?_, ?_⟩
  · rw [Network.sessions, sessions]
    refine List.nodup_append.mpr ⟨inv.distinct, List.nodup_singleton _, fun p member q single => ?_⟩
    obtain rfl := List.mem_singleton.mp single
    rintro rfl
    exact Nat.lt_irrefl _ (inv.older _ member)
  · intro p member
    rw [Network.sessions, sessions] at member
    rw [more]
    rcases List.mem_append.mp member with before | new
    · exact Nat.lt_succ_of_lt (inv.older p before)
    · obtain rfl := List.mem_singleton.mp new
      exact Nat.lt_succ_self _
  · intro peer member
    rcases List.mem_append.mp member with before | new
    · have kept := inv.dialogues peer before
      rw [Peer.dialogue, ← old peer before] at kept
      exact kept
    · obtain rfl := List.mem_singleton.mp new
      exact (congrArg (fun conn => Dialogue.Inv ⟨.new, false, conn, []⟩) begins).mpr
        (Dialogue.inv_init _ eventType)

omit [Runtime.Documented] in
/-- A step of one client, for its session and for the others. -/
theorem delivered {s : Server} {peer : Peer} {a : Dialogue.Action} {d : Dialogue}
    (stepped : (peer.dialogue s.world).step a = some d)
    (arrives : delivers db s peer.session a = some t) :
    t.world.conn peer.session = d.conn ∧
      (∀ p, p ≠ peer.session → t.world.conn p = s.world.conn p) ∧
      t.allocations = s.allocations ∧
      (t = s ∨ ∃ bytes, s.step Runtime.protobuf db (.arrive peer.session.addr bytes) = some t) := by
  have quiet (same : d.conn = s.world.conn peer.session) (unmoved : t = s) :
      t.world.conn peer.session = d.conn ∧
      (∀ p, p ≠ peer.session → t.world.conn p = s.world.conn p) ∧
      t.allocations = s.allocations ∧
      (t = s ∨ ∃ bytes, s.step Runtime.protobuf db (.arrive peer.session.addr bytes) = some t) := by
    subst unmoved
    exact ⟨same.symm, fun _ _ => rfl, rfl, .inl rfl⟩
  cases a with
  | server => contradiction
  | clientEvCb events =>
    obtain ⟨_, stepped⟩ := Option.ite_none_left_eq_some.mp stepped
    refine quiet ?_ (Option.some.inj arrives).symm
    split at stepped
    · obtain rfl := Option.some.inj stepped
      rfl
    · obtain ⟨_, stepped⟩ := Option.ite_none_left_eq_some.mp stepped
      obtain rfl := Option.some.inj stepped
      rfl
  | down =>
    obtain ⟨_, stepped⟩ := Option.ite_none_left_eq_some.mp stepped
    obtain rfl := Option.some.inj stepped
    exact quiet rfl (Option.some.inj arrives).symm
  | clientRdCb =>
    obtain ⟨_, stepped⟩ := Option.ite_none_left_eq_some.mp stepped
    refine quiet ?_ (Option.some.inj arrives).symm
    split at stepped <;>
      · obtain rfl := Option.some.inj stepped
        rfl
  | up bytes =>
    obtain ⟨_, stepped⟩ := Option.ite_none_left_eq_some.mp stepped
    obtain ⟨conn, moved, rfl⟩ := Option.map_eq_some_iff.mp stepped
    have received : s.step Runtime.protobuf db (.arrive peer.session.addr bytes) = some t := arrives
    cases live : s.world.conn peer.session with
    | closed =>
      rw [Peer.dialogue, live] at moved
      contradiction
    | live o items =>
      obtain ⟨lived, self, rfl⟩ := World.live_of_conn live
      have found : s.heap peer.session.addr = some o := lived
      rw [Peer.dialogue, live] at moved
      simp only [delivers, Server.step, found] at arrives
      obtain ⟨some, arrives⟩ := Option.ite_none_left_eq_some.mp arrives
      obtain rfl := Option.some.inj arrives
      obtain rfl := Option.some.inj ((if_neg some).symm.trans moved)
      refine ⟨?_, fun p other => ?_, rfl, .inr ⟨bytes, received⟩⟩
      · exact (World.conn_arrive lived).trans (if_pos ⟨self, rfl⟩)
      · exact (World.conn_arrive lived).trans (if_neg fun both => other (both.1.symm.trans self))

theorem inv_client {i : Nat} {a : Dialogue.Action} {d : Dialogue} (inv : n.Inv)
    (get : n.peers[i]? = some peer) (whole : Dialogue.Whole (peer.dialogue n.server.world) a)
    (stepped : (peer.dialogue n.server.world).step a = some d)
    (arrives : delivers db n.server peer.session a = some t) :
    Inv ⟨t, n.peers.set i (peer.after d)⟩ := by
  obtain ⟨here, elsewhere, allocations, moved⟩ := delivered stepped arrives
  have kept : t.Inv ∧ World.Projects Runtime.protobuf t.world ∧ t.world.NoDangling := by
    rcases moved with rfl | ⟨bytes, received⟩
    · exact ⟨inv.server, inv.projects, inv.safe⟩
    · refine world_step inv (Server.answered_spares ?_ ?_) received
      · exact fun _ _ => Server.Action.noConfusion
      · exact fun _ _ => Server.Action.noConfusion
  refine inv.same kept (Tally.map_set_same _ get _ rfl) (Nat.le_of_eq allocations.symm) ?_
  intro later member
  obtain ⟨j, found⟩ := List.getElem?_of_mem member
  rcases Slots.getElem?_set_cases found with ⟨_, rfl⟩ | ⟨differ, before⟩
  · rw [after_dialogue here]
    exact Dialogue.inv_step _ a d (inv.dialogues peer (List.mem_of_getElem? get)) whole stepped
  · have still := inv.dialogues later (List.mem_of_getElem? before)
    rw [Peer.dialogue, ← elsewhere _ (inv.other get before differ)] at still
    exact still

/-- Each client sees nothing of a step of the server, or a step in its own dialogue. -/
theorem server_dialogue {a : Server.Action} (inv : n.Inv)
    (accepts : ∀ addr eventType, a ≠ .accept addr eventType)
    (receives : ∀ addr bytes, a ≠ .arrive addr bytes)
    (enabled : n.server.step Runtime.protobuf db a = some t) (peer : Peer) :
    (∀ b ∈ n.server.answer a, ¬ World.Calls n.server.world peer.session b) ∧
        (peer.receives (written n.server peer.session a)).dialogue t.world =
          peer.dialogue n.server.world ∨
      ∃ b c, b ∈ n.server.answer a ∧ World.Stands n.server.world peer.session b c ∧
        (peer.dialogue n.server.world).step (.server c) =
          some ((peer.receives (written n.server peer.session a)).dialogue t.world) := by
  obtain ⟨ran, _⟩ := Server.answers inv.server enabled
  rcases answer_inner enabled accepts receives with ⟨none, quiet⟩ | ⟨b, one, inner, continues, wrote⟩
  · rw [none] at ran
    rw [← Option.some.inj ran, quiet, receives_nil, none]
    exact .inl ⟨fun _ member => absurd member List.not_mem_nil, rfl⟩
  · have answered : b ∈ n.server.answer a := one ▸ List.mem_singleton_self b
    rw [one, run_singleton] at ran
    rw [wrote]
    rcases dialogue_seen (World.seen_step inv.projects inner continues ran peer.session)
      with ⟨uncalled, same⟩ | ⟨c, stands, stepped⟩
    · refine .inl ⟨fun other member => ?_, same⟩
      obtain rfl := List.mem_singleton.mp (one ▸ member)
      exact uncalled
    · exact .inr ⟨b, c, answered, stands, stepped⟩

/-- No callback deletes a client's session whose request is handled. -/
theorem answered_spares (inv : n.Inv) {a : Server.Action} (own : n.own a = true)
    (patient : Patient n (.server a)) (enabled : n.server.step Runtime.protobuf db a = some t) :
    Server.Answered World.Spares n.server a := by
  have spoken {addr : Nat} {o : Object} (serves : n.serves addr = true)
      (lives : n.server.heap addr = some o) :
      ∃ peer ∈ n.peers, peer.session = o.self ∧ (peer.dialogue n.server.world).Inv ∧
        (peer.dialogue n.server.world).conn = .live o (n.server.world.itemsAt addr) := by
    obtain ⟨peer, member, same⟩ := serves_iff.mp serves
    rw [lives, Option.map_some] at same
    have self : o.self = peer.session := Option.some.inj same
    obtain rfl : o.self.addr = addr := (inv.projects addr o lives).1
    exact ⟨peer, member, self.symm, inv.dialogues peer member,
      (congrArg n.server.world.conn self.symm).trans (World.conn_live lives rfl)⟩
  intro b answered
  cases b with
  | reqCallback addr =>
    intro o lives
    obtain ⟨woken, rfl⟩ := answer_reqCallback answered
    obtain ⟨peer, _, _, dialogue, live⟩ := spoken own lives
    have found : n.server.heap addr = some o := lives
    simp only [Server.step, found] at enabled
    exact spares_unread dialogue live (Option.ite_none_right_eq_some.mp enabled).1
  | errCallback addr events =>
    intro o lives
    obtain rfl := answer_errCallback answered
    obtain ⟨peer, inside, same, dialogue, live⟩ := spoken own lives
    have found : n.server.heap addr = some o := lives
    refine settled dialogue live (patient peer inside ?_)
    rw [found, same, Option.map_some]
  | _ => trivial

theorem inv_server {a : Server.Action} (inv : n.Inv) (own : n.own a = true)
    (patient : Patient n (.server a))
    (enabled : n.server.step Runtime.protobuf db a = some t) :
    Inv ⟨t, n.peers.map fun (peer : Peer) => peer.receives (written n.server peer.session a)⟩ := by
  obtain ⟨accepts, receives⟩ := own_inner own
  have kept := world_step inv (answered_spares inv own patient enabled) enabled
  refine inv.same kept ?_ (allocations_le enabled) ?_
  · rw [List.map_map]
    rfl
  · intro later member
    obtain ⟨peer, before, rfl⟩ := List.mem_map.mp member
    have old := inv.dialogues peer before
    rcases server_dialogue inv accepts receives enabled peer with ⟨_, same⟩ | ⟨_, c, _, _, stepped⟩
    · rw [same]
      exact old
    · exact Dialogue.inv_step _ (.server c) _ old trivial stepped

/-- What strangers do concerns no client's session. -/
theorem foreign_answer {a : Server.Action} (inv : n.Inv) (foreign : n.foreign a = true)
    (member : peer ∈ n.peers) :
    ∃ b, n.server.answer a = [b] ∧ World.Foreign n.server.world peer.session b := by
  have other {addr : Nat} (foreign : (!n.serves addr) = true) (o : Object)
      (lives : n.server.world.heap addr = some o) : o.self ≠ peer.session := by
    intro same
    have found : n.server.heap addr = some o := lives
    have serves := serves_iff.mpr ⟨peer, member, by rw [found, Option.map_some, same]⟩
    rw [serves] at foreign
    contradiction
  cases a with
  | accept => exact ⟨_, rfl, inv.mine member⟩
  | arrive | reqCallback | errCallback => exact ⟨_, rfl, other foreign⟩
  | _ => contradiction

theorem conn_stranger {a : Server.Action} (inv : n.Inv) (foreign : n.foreign a = true)
    (after : World.Projects Runtime.protobuf t.world)
    (enabled : n.server.step Runtime.protobuf db a = some t) (member : peer ∈ n.peers) :
    t.world.conn peer.session = n.server.world.conn peer.session := by
  obtain ⟨b, answer, unconcerned⟩ := foreign_answer inv foreign member
  obtain ⟨ran, _⟩ := Server.answers inv.server enabled
  rw [answer, run_singleton] at ran
  exact World.conn_foreign inv.projects after unconcerned ran

theorem inv_stranger {a : Server.Action} (inv : n.Inv) (patient : Patient n (.stranger a))
    (foreign : n.foreign a = true) (enabled : n.server.step Runtime.protobuf db a = some t) :
    Inv ⟨t, n.peers⟩ := by
  have kept := world_step inv patient enabled
  refine inv.same kept rfl (allocations_le enabled) fun peer member => ?_
  rw [Peer.dialogue, conn_stranger inv foreign kept.2.1 enabled member]
  exact inv.dialogues peer member

theorem inv_step (n : Network) (a : Action) (m : Network) (inv : n.Inv) (patient : Patient n a)
    (enabled : step db n a = some m) : m.Inv := by
  cases stepped_of_step enabled with
  | connect addr eventType t accepted => exact inv_connect inv accepted
  | client i a peer d t get stepped delivered => exact inv_client inv get (patient peer get) stepped delivered
  | stranger a t foreign stepped => exact inv_stranger inv patient foreign stepped
  | server a t own stepped => exact inv_server inv own patient stepped

/-- Any number of clients, connecting at any time, in any order with all else, among any
number of strangers who send what they like. Where the clients read whole responses, no
client's connection ends before it has printed both lines, and no stranger's session is
deleted while its request is handled, what a client prints was written to its own session, in
answer to its requests: its identifier, then that its login succeeded, or a part of this. -/
theorem undisturbed {hardwareConcurrency : Nat} {handling : Nat → Position} {table : List Bytes}
    {actions : List Action}
    (ran : run (step db) (init hardwareConcurrency handling table) actions = some n)
    (patient : Along (step db) Patient (init hardwareConcurrency handling table) actions)
    (member : peer ∈ n.peers) :
    (∃ identifier, SixDigits identifier ∧
      peer.client.printed <+: [.dynamicCode identifier, .result 200 (ascii "ok.")]) ∧
    ∀ o, n.server.heap peer.session.addr = some o → o.self = peer.session →
      peer.client.printed <+: o.written.map Dialogue.shown ∧ o.Answers := by
  have inv : n.Inv := (always_of_along inv_step (inv_init _ _ _) patient).final ran
  have dialogue := inv.dialogues peer member
  refine ⟨Dialogue.printed_script dialogue, fun o lives self => ?_⟩
  obtain ⟨received, transit, follows⟩ := dialogue
  have upstream := follows.live o _ (World.conn_live lives self)
  refine ⟨?_, (inv.projects.inv lives).corresponds.answers⟩
  have printed : peer.client.printed = received.map Dialogue.shown := follows.printed
  rw [printed, upstream.written, List.map_append]
  exact List.prefix_append _ _

/-- Where the clients read whole responses, no client's connection ends before it has printed
both lines, and no stranger's session is deleted while its request is handled, nothing in the
pool ever points to a deleted session, and no new session is put where the pool points,
though the addresses of deleted ones are used again. -/
theorem never_dangles {hardwareConcurrency : Nat} {handling : Nat → Position} {table : List Bytes}
    {actions : List Action}
    (patient : Along (step db) Patient (init hardwareConcurrency handling table) actions) :
    Always (step db) (fun n => n.server.world.NoDangling ∧
        ∀ addr, n.server.heap addr = none → n.server.world.itemsAt addr = [])
      (init hardwareConcurrency handling table) actions := by
  have always := always_of_along inv_step (inv_init hardwareConcurrency handling table) patient
  exact always.mono fun _ inv => ⟨inv.safe, fun _ free => World.fresh_of_noDangling inv.safe free⟩

end Inv
end Undisturbed

instance (n : Network) (a : Action) : Decidable (Patient n a) :=
  match a with
  | .client i a => inferInstanceAs
      (Decidable (∀ peer ∈ n.peers[i]?, Dialogue.Whole (peer.dialogue n.server.world) a))
  | .stranger a => inferInstanceAs (Decidable (Server.Answered World.Spares n.server a))
  | .server (.errCallback addr _) => inferInstanceAs (Decidable (∀ peer ∈ n.peers,
      (n.server.heap addr).map (·.self) = some peer.session → 2 ≤ peer.client.printed.length))
  | .connect _ _ | .server (.accept _ _) | .server (.arrive _ _) | .server (.reqCallback _ _)
  | .server (.lock _) | .server (.wakeUp _) | .server (.work _ _ _ _) | .server (.execute _)
  | .server (.process _) | .server (.markIdle _) | .server .handleResults => isTrue trivial

section Witness
open scoped WireFormat

/-- A stranger asks for an identifier and is gone once it has its response; the client's
request is handled after the stranger's, and it reads when the stranger has left. -/
def strangerRun : List Action :=
  [.stranger (.accept 4096 .kUnknown), .connect 8192 .kUnknown,
    .client 0 (.clientEvCb ClientSimulator.bevEventConnected),
    .stranger (.arrive 4096 Dialogue.phoneFrame.bytes), .stranger (.reqCallback 4096 none),
    .client 0 (.up Dialogue.phoneFrame.bytes), .server (.reqCallback 8192 none),
    .server (.lock 0), .server (.work 0 7 ⟨[], 0⟩ .noHandler),
    .server (.work 0 0 ⟨[], 0⟩ .noHandler), .server (.work 0 0 ⟨[], 0⟩ .noHandler),
    .server (.execute 0), .server (.process 0), .server (.markIdle 0), .server (.lock 0),
    .server (.work 0 23456 ⟨[], 0⟩ .noHandler), .server (.work 0 0 ⟨[], 0⟩ .noHandler),
    .server (.work 0 0 ⟨[], 0⟩ .noHandler), .server (.execute 0), .server (.process 0),
    .server .handleResults, .stranger (.errCallback 4096 0x11),
    .client 0 (.down (Proto.package (Proto.serializable (evPhoneRes 123456 .kSuccess)))),
    .client 0 .clientRdCb]

theorem undisturbed_stranger : ∃ n peer, run (step ⟨fun _ _ => none⟩)
      (init 1 (fun _ => .returned (evLoginRes .kSuccess)) []) strangerRun = some n ∧
    n.peers = [peer] ∧ peer.client.printed = [.dynamicCode 123456] ∧
    ∃ identifier, SixDigits identifier ∧
      peer.client.printed <+: [.dynamicCode identifier, .result 200 (ascii "ok.")] := by
  have one : (run (step ⟨fun _ _ => none⟩) (init 1 (fun _ => .returned (evLoginRes .kSuccess)) [])
      strangerRun).map (fun n => n.peers.map (·.client.printed)) = some [[.dynamicCode 123456]] := by
    decide +kernel
  obtain ⟨n, ran, printed⟩ := Option.map_eq_some_iff.mp one
  obtain ⟨peer, alone, heard⟩ := List.map_eq_singleton_iff.mp printed
  have member : peer ∈ n.peers := alone ▸ List.mem_singleton_self peer
  exact ⟨n, peer, ran, alone, heard, (undisturbed ran (along_of_decide (by decide +kernel)) member).1⟩

/-- A client connects where a stranger's session was, which ended while it was not handled. -/
def reuseRun : List Action :=
  [.stranger (.accept 4096 .kUnknown), .stranger (.errCallback 4096 0x11), .connect 4096 .kUnknown,
    .client 0 (.clientEvCb ClientSimulator.bevEventConnected),
    .client 0 (.up Dialogue.phoneFrame.bytes), .server (.reqCallback 4096 none), .server (.lock 0)]

theorem never_dangles_reuse : ∃ n, run (step ⟨fun _ _ => none⟩)
      (init 1 (fun _ => .returned (evLoginRes .kSuccess)) []) reuseRun = some n ∧
    n.server.world.items ≠ [] ∧ n.server.world.NoDangling := by
  have busy : (run (step ⟨fun _ _ => none⟩) (init 1 (fun _ => .returned (evLoginRes .kSuccess)) [])
      reuseRun).map (·.server.world.items.length) = some 1 := by decide +kernel
  obtain ⟨n, ran, one⟩ := Option.map_eq_some_iff.mp busy
  refine ⟨n, ran, fun none => ?_, ((never_dangles (along_of_decide (by decide +kernel))).final ran).1⟩
  rw [none] at one
  contradiction

end Witness

end Network
end Shbk2
