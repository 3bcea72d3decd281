import Shbk2.PoolAccounting

/-! When a request goes away empty-handed. The predicate of the wait compares the
number of wrappers with the counter, the body looks at the flags: they agree as
long as the counter holds the number of handlers alive. -/
namespace Shbk2
open Transition

namespace ConnPool

/-- A request fails only where its wait timed out on an exhausted pool, it succeeds
once the predicate holds, it prefers what is there, and a failure changes nothing. -/
structure Honest (p : ConnPool) (connected : Bool) : Prop where
  fails : (p.requestHandler connected).1 = none ↔ p.isCondSatisfied = false ∧
    (∀ w ∈ p.handlerWrappers, w.isUsing = true) ∧ p.kMaxCount.toNat ≤ p.handlerWrappers.length
  handsOut : p.isCondSatisfied = true → ∃ h, (p.requestHandler connected).1 = some h
  prefersFree : (∃ w ∈ p.handlerWrappers, w.isUsing = false) →
    (p.requestHandler connected).2.handlerWrappers.length = p.handlerWrappers.length
  unchanged : (p.requestHandler connected).1 = none → (p.requestHandler connected).2 = p

variable {p : ConnPool} {connected : Bool}

/-- Whatever the predicate says, a wrapper is added only where none is free. -/
theorem requestHandler_length (free : ∃ w ∈ p.handlerWrappers, w.isUsing = false) :
    (p.requestHandler connected).2.handlerWrappers.length = p.handlerWrappers.length := by
  obtain ⟨w, member, unused⟩ := free
  generalize result : p.requestHandler connected = answer
  have requested : Requested p connected answer := result ▸ p.requestHandler_requested connected
  cases requested with
  | nothing => rfl
  | free i v _ get _ => exact List.length_set
  | grown v _ full =>
    rw [inUse_full.mp full w member] at unused
    contradiction

theorem requestHandler_unchanged (failed : (p.requestHandler connected).1 = none) :
    (p.requestHandler connected).2 = p := by
  generalize result : p.requestHandler connected = answer at failed ⊢
  have requested : Requested p connected answer := result ▸ p.requestHandler_requested connected
  cases requested with
  | nothing => rfl
  | free | grown => contradiction

/-- The body finds nothing where every wrapper is in use and the pool has its full size. -/
theorem requestHandler_exhausted (full : p.inUse = p.handlerWrappers.length)
    (large : p.kMaxCount.toNat ≤ p.handlerWrappers.length) :
    (p.requestHandler connected).1 = none := by
  generalize result : p.requestHandler connected = answer
  have requested : Requested p connected answer := result ▸ p.requestHandler_requested connected
  cases requested with
  | nothing => rfl
  | free i w _ get free =>
    rw [inUse_full.mp full w (List.mem_of_getElem? get)] at free
    contradiction
  | grown w _ _ room => omega

/-- A request is honest where the predicate agrees with the flags. -/
theorem honest_of_agree (agree : p.isCondSatisfied = true ↔
    p.inUse < p.handlerWrappers.length ∨ p.handlerWrappers.length < p.kMaxCount.toNat) :
    Honest p connected := by
  have bound := p.inUse_le
  have exhausted : p.isCondSatisfied = false ↔
      p.inUse = p.handlerWrappers.length ∧ p.kMaxCount.toNat ≤ p.handlerWrappers.length := by
    rw [← Bool.not_eq_true, agree]
    omega
  have satisfied (holds : p.isCondSatisfied = true) : (p.requestHandler connected).1 ≠ none := by
    generalize result : p.requestHandler connected = answer
    have requested : Requested p connected answer := result ▸ p.requestHandler_requested connected
    cases requested with
    | nothing both =>
      rw [exhausted.mpr (both holds)] at holds
      contradiction
    | free | grown => exact Option.some_ne_none _
  refine ⟨?_, fun holds => Option.ne_none_iff_exists'.mp (satisfied holds), requestHandler_length,
    requestHandler_unchanged⟩
  rw [← inUse_full]
  constructor
  · intro failed
    have timedOut : p.isCondSatisfied = false :=
      Bool.eq_false_iff.mpr fun holds => satisfied holds failed
    exact ⟨timedOut, exhausted.mp timedOut⟩
  · rintro ⟨_, full, large⟩
    exact requestHandler_exhausted full large

end ConnPool

namespace PoolUse

/-- All handlers the pool can ever have are alive. -/
theorem reaches_exhausted (kMinCount kMaxCount : UInt32) (connected : Nat → Bool) :
    ∃ s, Reachable step (init kMinCount kMaxCount connected) s ∧
      s.alive.length = max kMinCount.toNat kMaxCount.toNat ∧
      s.pool.inUse = s.pool.handlerWrappers.length ∧
      s.pool.kMaxCount.toNat ≤ s.pool.handlerWrappers.length := by
  obtain ⟨s, reached, count⟩ :=
    reaches_alive connected (Nat.le_refl (max kMinCount.toNat kMaxCount.toNat))
  have consistent := consistent_reachable reached
  have used := consistent.inUse
  have upper := consistent.upper
  have bound := s.pool.inUse_le
  refine ⟨s, reached, count, by omega, ?_⟩
  rw [consistent.config.2]
  omega

/-- Every request is honest in every reachable state exactly when the size of the
pool fits the counter. -/
theorem honest_iff (kMinCount kMaxCount : UInt32) (connected : Nat → Bool) :
    (∀ s, Reachable step (init kMinCount kMaxCount connected) s →
        ∀ connects, s.pool.Honest connects) ↔
      max kMinCount.toNat kMaxCount.toNat < 2 ^ 31 := by
  constructor
  · intro honest
    by_contra large
    obtain ⟨s, reached, count, full, size⟩ := reaches_exhausted kMinCount kMaxCount connected
    have overflown : s.pool.isCondSatisfied = true :=
      (isCondSatisfied_iff (consistent_reachable reached)).mpr (.inl (by omega))
    obtain ⟨h, succeeded⟩ := (honest s reached true).handsOut overflown
    rw [ConnPool.requestHandler_exhausted full size] at succeeded
    contradiction
  · intro small s reached connects
    have consistent := consistent_reachable reached
    have bound := s.pool.inUse_le
    have used := consistent.inUse
    have upper := consistent.upper
    apply ConnPool.honest_of_agree
    rw [isCondSatisfied_iff consistent]
    apply or_iff_right
    omega

/-- With the counter overflown the predicate holds on an exhausted pool, and the
request reaches the last `return nullptr` without waiting. -/
theorem fails_unwaited :
    ∃ s, Reachable step (init 0 0x80000000 fun _ => true) s ∧ s.pool.isCondSatisfied = true ∧
      (s.pool.requestHandler true).1 = none := by
  obtain ⟨s, reached, count, full, size⟩ := reaches_exhausted 0 0x80000000 fun _ => true
  have overflown : 2 ^ 31 ≤ s.alive.length := by
    rw [count]
    decide
  exact ⟨s, reached, (isCondSatisfied_iff (consistent_reachable reached)).mpr (.inl overflown),
    ConnPool.requestHandler_exhausted full size⟩

end PoolUse
end Shbk2
