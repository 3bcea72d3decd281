import Mathlib.Algebra.Group.Int.Defs
import Mathlib.Algebra.Group.Nat.Defs
import Shbk2.Lib.Transition

/-! The connection pool, one function for each critical section under its mutex.
The counter is an `int`; the sizes it is compared with are `size_t`. -/
namespace Shbk2

/-- `handler` is the `MYSQL*` of the connection, null when connecting failed; the
objects are told apart by a number. -/
structure HandlerWrapper where
  handler : Option Nat
  isUsing : Bool
  deriving DecidableEq

def HandlerWrapper.new (number : Nat) (connected : Bool) : HandlerWrapper :=
  ⟨if connected then some number else none, false⟩

structure ConnHandler where
  handler : Option Nat
  index : Nat
  deriving DecidableEq

structure ConnPool where
  kMinCount : UInt32
  kMaxCount : UInt32
  usingHandlerCount : Int32
  handlerWrappers : List HandlerWrapper
  deriving DecidableEq

namespace ConnPool

/-- The constructor: `connected` tells which connections it could make. -/
def new (kMinCount kMaxCount : UInt32) (connected : Nat → Bool) : ConnPool where
  kMinCount := kMinCount
  kMaxCount := kMaxCount
  usingHandlerCount := 0
  handlerWrappers := (List.range kMinCount.toNat).map fun i => .new i (connected i)

/-- The predicate of the wait. The counter is converted to `size_t`. -/
def isCondSatisfied (p : ConnPool) : Bool :=
  (p.handlerWrappers.length : Int) ≠ p.usingHandlerCount.toInt % 2 ^ 64 ||
    p.handlerWrappers.length < p.kMaxCount.toNat

def allocateConnHandler (p : ConnPool) (handlerWrapper : HandlerWrapper) (idx : Nat) :
    ConnHandler × ConnPool :=
  (⟨handlerWrapper.handler, idx⟩,
    { p with
      usingHandlerCount := p.usingHandlerCount + 1
      handlerWrappers := p.handlerWrappers.set idx { handlerWrapper with isUsing := true } })

/-- The first wrapper of the scan that is not in use. -/
def scan : Nat → List HandlerWrapper → Option (Nat × HandlerWrapper)
  | _, [] => none
  | i, handlerWrapper :: rest =>
    if handlerWrapper.isUsing then scan (i + 1) rest else some (i, handlerWrapper)

def grow (p : ConnPool) (connected : Bool) : ConnPool :=
  { p with handlerWrappers := p.handlerWrappers ++ [.new p.handlerWrappers.length connected] }

/-- `RequestHandler` when its wait has ended, by the predicate or by the timeout. -/
def requestHandler (p : ConnPool) (connected : Bool) : Option ConnHandler × ConnPool :=
  if !p.isCondSatisfied then (none, p)
  else
    match scan 0 p.handlerWrappers with
    | some (i, handlerWrapper) =>
      let allocated := p.allocateConnHandler handlerWrapper i
      (some allocated.1, allocated.2)
    | none =>
      if p.handlerWrappers.length < p.kMaxCount.toNat then
        let size := p.handlerWrappers.length
        let allocated := (p.grow connected).allocateConnHandler (.new size connected) size
        (some allocated.1, allocated.2)
      else (none, p)

/-- An index outside the vector has no defined effect. -/
def releaseConnHandler (p : ConnPool) (idx : Nat) : Option ConnPool :=
  p.handlerWrappers[idx]?.map fun handlerWrapper =>
    { p with
      usingHandlerCount := p.usingHandlerCount - 1
      handlerWrappers := p.handlerWrappers.set idx { handlerWrapper with isUsing := false } }

end ConnPool

/-- A pool and the handlers its users hold. -/
structure PoolUse where
  pool : ConnPool
  alive : List ConnHandler

namespace PoolUse

inductive Action where
  | request (connected : Bool)
  | destroy (k : Nat)

def init (kMinCount kMaxCount : UInt32) (connected : Nat → Bool) : PoolUse :=
  ⟨.new kMinCount kMaxCount connected, []⟩

def step (s : PoolUse) : Action → Option PoolUse
  | .request connected =>
    let requested := s.pool.requestHandler connected
    some ⟨requested.2, s.alive ++ requested.1.toList⟩
  | .destroy k =>
    s.alive[k]?.bind fun handler =>
      (s.pool.releaseConnHandler handler.index).map fun pool => ⟨pool, s.alive.eraseIdx k⟩

end PoolUse
end Shbk2
