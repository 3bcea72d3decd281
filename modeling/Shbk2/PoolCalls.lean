import Shbk2.Lib.Monitor
import Shbk2.PoolExhaustion

/-! Calls of `RequestHandler` with their waits. A caller sleeps while every connection is
out and the pool has its full size, until a `ReleaseConnHandler` notifies it or its time
is over; the end of the wait, for whichever reason, evaluates the predicate. A caller
holds one handler at a time, as the functions of `UserDAO` do. -/
namespace Shbk2
open Transition

/-- Where a caller stands. `timedOut` is after the wait was over, before the last look at
the predicate. -/
inductive Caller where
  | away
  | entering
  | asleep
  | notified
  | timedOut
  | holding (handler : ConnHandler)
  deriving DecidableEq

namespace Caller

def phase : Caller → Monitor.Phase
  | asleep => .asleep
  | notified | timedOut => .notified
  | away | entering | holding _ => .outside

def handler : Caller → Option ConnHandler
  | holding handler => some handler
  | _ => none

end Caller

structure PoolCalls where
  pool : ConnPool
  callers : List Caller

namespace PoolCalls

inductive Action where
  | call (i : Nat)
  | acquire (i : Nat) (connected : Bool)
  | wakeUp (i : Nat)
  | expire (i : Nat)
  | release (i : Nat) (woken : Option Nat)

def init (kMinCount kMaxCount : UInt32) (connected : Nat → Bool) (callers : Nat) : PoolCalls :=
  ⟨.new kMinCount kMaxCount connected, List.replicate callers .away⟩

/-- `RequestHandler` has evaluated the predicate to true, or for the last time. -/
def returnHandler (s : PoolCalls) (i : Nat) (connected : Bool) : PoolCalls :=
  match s.pool.requestHandler connected with
  | (some handler, pool) => ⟨pool, s.callers.set i (.holding handler)⟩
  | (none, pool) => ⟨pool, s.callers.set i .away⟩

/-- A wait that may time out returns the value of the predicate at its end. -/
def step (s : PoolCalls) : Action → Option PoolCalls
  | .call i =>
    match s.callers[i]? with
    | some .away => some { s with callers := s.callers.set i .entering }
    | _ => none
  | .acquire i connected =>
    match s.callers[i]? with
    | some .entering | some .notified =>
      if s.pool.isCondSatisfied then some (s.returnHandler i connected)
      else some { s with callers := s.callers.set i .asleep }
    | some .timedOut => some (s.returnHandler i connected)
    | _ => none
  | .wakeUp i =>
    match s.callers[i]? with
    | some .asleep => some { s with callers := s.callers.set i .notified }
    | _ => none
  | .expire i =>
    match s.callers[i]? with
    | some .asleep | some .notified => some { s with callers := s.callers.set i .timedOut }
    | _ => none
  | .release i woken =>
    match s.callers[i]? with
    | some (.holding handler) =>
      (s.pool.releaseConnHandler handler.index).bind fun pool =>
        (Monitor.notifyOne Caller.phase .notified s.callers woken).map fun callers =>
          ⟨pool, callers.set i .away⟩
    | _ => none

/-- What each enabled action does. -/
inductive Stepped (s : PoolCalls) : Action → PoolCalls → Prop where
  | call (i : Nat) : s.callers[i]? = some .away →
      Stepped s (.call i) { s with callers := s.callers.set i .entering }
  | returns (i : Nat) (connected : Bool) (c : Caller) (handler : ConnHandler) (pool : ConnPool) :
      s.callers[i]? = some c → c = .entering ∨ c.phase = .notified →
      s.pool.requestHandler connected = (some handler, pool) →
      Stepped s (.acquire i connected) ⟨pool, s.callers.set i (.holding handler)⟩
  | sleeps (i : Nat) (connected : Bool) (c : Caller) : s.callers[i]? = some c →
      c = .entering ∨ c = .notified → s.pool.isCondSatisfied = false →
      Stepped s (.acquire i connected) { s with callers := s.callers.set i .asleep }
  | fails (i : Nat) (connected : Bool) (c : Caller) : s.callers[i]? = some c →
      c = .entering ∨ c.phase = .notified →
      s.pool.isCondSatisfied = true ∨ c = .timedOut →
      (s.pool.requestHandler connected).1 = none →
      Stepped s (.acquire i connected) { s with callers := s.callers.set i .away }
  | wakeUp (i : Nat) : s.callers[i]? = some .asleep →
      Stepped s (.wakeUp i) { s with callers := s.callers.set i .notified }
  | expire (i : Nat) (c : Caller) : s.callers[i]? = some c → c = .asleep ∨ c = .notified →
      Stepped s (.expire i) { s with callers := s.callers.set i .timedOut }
  | release (i : Nat) (woken : Option Nat) (handler : ConnHandler) (pool : ConnPool)
      (callers : List Caller) : s.callers[i]? = some (.holding handler) →
      s.pool.releaseConnHandler handler.index = some pool →
      Monitor.notifyOne Caller.phase .notified s.callers woken = some callers →
      Stepped s (.release i woken) ⟨pool, callers.set i .away⟩

theorem stepped_returnHandler {s : PoolCalls} {i : Nat} {c : Caller} (connected : Bool)
    (get : s.callers[i]? = some c) (waited : c = .entering ∨ c.phase = .notified)
    (ended : s.pool.isCondSatisfied = true ∨ c = .timedOut) :
    Stepped s (.acquire i connected) (s.returnHandler i connected) := by
  unfold returnHandler
  split
  · exact .returns i connected c _ _ get waited ‹_›
  · rename_i pool failed
    have none : (s.pool.requestHandler connected).1 = none := by rw [failed]
    have same : pool = s.pool := by
      have unchanged := ConnPool.requestHandler_unchanged none
      rwa [failed] at unchanged
    rw [same]
    exact .fails i connected c get waited ended none

theorem stepped_of_step {s t : PoolCalls} {a : Action} (enabled : step s a = some t) :
    Stepped s a t := by
  cases a with
  | call i =>
    simp only [step] at enabled
    split at enabled
    · obtain rfl := Option.some.inj enabled
      exact .call i ‹_›
    · contradiction
  | acquire i connected =>
    simp only [step] at enabled
    split at enabled
    · rename_i get
      split at enabled
      · obtain rfl := Option.some.inj enabled
        exact stepped_returnHandler connected get (.inl rfl) (.inl ‹_›)
      · obtain rfl := Option.some.inj enabled
        exact .sleeps i connected _ get (.inl rfl) (Bool.eq_false_iff.mpr ‹_›)
    · rename_i get
      split at enabled
      · obtain rfl := Option.some.inj enabled
        exact stepped_returnHandler connected get (.inr rfl) (.inl ‹_›)
      · obtain rfl := Option.some.inj enabled
        exact .sleeps i connected _ get (.inr rfl) (Bool.eq_false_iff.mpr ‹_›)
    · obtain rfl := Option.some.inj enabled
      exact stepped_returnHandler connected ‹_› (.inr rfl) (.inr rfl)
    · contradiction
  | wakeUp i =>
    simp only [step] at enabled
    split at enabled
    · obtain rfl := Option.some.inj enabled
      exact .wakeUp i ‹_›
    · contradiction
  | expire i =>
    simp only [step] at enabled
    split at enabled
    · obtain rfl := Option.some.inj enabled
      exact .expire i _ ‹_› (.inl rfl)
    · obtain rfl := Option.some.inj enabled
      exact .expire i _ ‹_› (.inr rfl)
    · contradiction
  | release i woken =>
    simp only [step] at enabled
    split at enabled
    · obtain ⟨pool, released, enabled⟩ := Option.bind_eq_some_iff.mp enabled
      obtain ⟨callers, woke, rfl⟩ := Option.map_eq_some_iff.mp enabled
      exact .release i woken _ pool callers ‹_› released woke
    · contradiction

end PoolCalls
end Shbk2
