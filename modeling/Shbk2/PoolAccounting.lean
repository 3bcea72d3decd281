import Mathlib.Data.List.Nodup
import Shbk2.ConnPool

/-! Who uses which connection, recorded three times: by the counter, by the flags
of the wrappers and by the handlers outside the pool. The flags and the handlers
always agree; the counter does as long as an `int` can hold it. -/
namespace Shbk2
open Transition

namespace ConnPool

/-- The wrappers in use. -/
def inUse (p : ConnPool) : Nat := p.handlerWrappers.countP (·.isUsing)

theorem inUse_le (p : ConnPool) : p.inUse ≤ p.handlerWrappers.length := List.countP_le_length

theorem inUse_full {p : ConnPool} :
    p.inUse = p.handlerWrappers.length ↔ ∀ w ∈ p.handlerWrappers, w.isUsing = true :=
  List.countP_eq_length

theorem scan_some {wrappers : List HandlerWrapper} {start i : Nat} {w : HandlerWrapper}
    (found : scan start wrappers = some (i, w)) :
    ∃ k, i = start + k ∧ wrappers[k]? = some w ∧ w.isUsing = false := by
  induction wrappers generalizing start with
  | nil => contradiction
  | cons first rest ih =>
    rw [scan] at found
    split at found
    · obtain ⟨k, rfl, get, free⟩ := ih found
      exact ⟨k + 1, by omega, get, free⟩
    · rename_i free
      obtain ⟨rfl, rfl⟩ := Prod.mk.inj (Option.some.inj found)
      exact ⟨0, rfl, rfl, by simpa using free⟩

theorem scan_none {wrappers : List HandlerWrapper} {start : Nat} :
    scan start wrappers = none ↔ wrappers.countP (·.isUsing) = wrappers.length := by
  induction wrappers generalizing start with
  | nil => simp [scan]
  | cons first rest ih =>
    rw [scan]
    cases used : first.isUsing with
    | true =>
      rw [if_pos rfl, ih, List.countP_cons_of_pos used, List.length_cons]
      exact Nat.add_right_cancel_iff.symm
    | false =>
      have bound : rest.countP (·.isUsing) ≤ rest.length := List.countP_le_length
      rw [if_neg Bool.false_ne_true, List.countP_cons_of_neg (by simp [used]), List.length_cons]
      simp only [reduceCtorEq, false_iff]
      omega

/-- What a call of `requestHandler` does, and when: nothing, or it hands out a free
wrapper, which it may have made for that. -/
inductive Requested (p : ConnPool) (connected : Bool) : Option ConnHandler × ConnPool → Prop where
  | nothing : (p.isCondSatisfied = true →
        p.inUse = p.handlerWrappers.length ∧ p.kMaxCount.toNat ≤ p.handlerWrappers.length) →
      Requested p connected (none, p)
  | free (i : Nat) (w : HandlerWrapper) : p.isCondSatisfied = true →
      p.handlerWrappers[i]? = some w → w.isUsing = false →
      Requested p connected
        (some (p.allocateConnHandler w i).1, (p.allocateConnHandler w i).2)
  | grown (w : HandlerWrapper) : p.isCondSatisfied = true →
      p.inUse = p.handlerWrappers.length → p.handlerWrappers.length < p.kMaxCount.toNat →
      w = .new p.handlerWrappers.length connected →
      Requested p connected
        (some ((p.grow connected).allocateConnHandler w p.handlerWrappers.length).1,
          ((p.grow connected).allocateConnHandler w p.handlerWrappers.length).2)

theorem requestHandler_requested (p : ConnPool) (connected : Bool) :
    Requested p connected (p.requestHandler connected) := by
  unfold requestHandler
  split
  · rename_i timedOut
    exact .nothing fun satisfied => absurd satisfied (by simpa using timedOut)
  · rename_i satisfied
    have satisfied : p.isCondSatisfied = true := by simpa using satisfied
    split
    · rename_i i w found
      obtain ⟨k, rfl, get, free⟩ := scan_some found
      rw [Nat.zero_add]
      exact .free k w satisfied get free
    · rename_i nothingFree
      have full := scan_none.mp nothingFree
      split
      · exact .grown _ satisfied full ‹_› rfl
      · exact .nothing fun _ => ⟨full, Nat.not_lt.mp ‹_›⟩

/-- The wrapper added last. -/
theorem grow_last (p : ConnPool) (connected : Bool) :
    (p.grow connected).handlerWrappers[p.handlerWrappers.length]? =
      some (.new p.handlerWrappers.length connected) := by
  simp [grow]

end ConnPool

namespace PoolUse

/-- The flags, the handlers and the sizes. -/
structure Consistent (kMinCount kMaxCount : UInt32) (s : PoolUse) : Prop where
  config : s.pool.kMinCount = kMinCount ∧ s.pool.kMaxCount = kMaxCount
  counter : s.pool.usingHandlerCount = Int32.ofNat s.alive.length
  inUse : s.pool.inUse = s.alive.length
  holds : ∀ h ∈ s.alive, s.pool.handlerWrappers[h.index]? = some ⟨h.handler, true⟩
  distinct : (s.alive.map (·.index)).Nodup
  numbered : ∀ (i : Nat) (w : HandlerWrapper) (number : Nat), s.pool.handlerWrappers[i]? = some w →
    w.handler = some number → number = i
  lower : kMinCount.toNat ≤ s.pool.handlerWrappers.length
  upper : s.pool.handlerWrappers.length ≤ max kMinCount.toNat kMaxCount.toNat

variable {kMinCount kMaxCount : UInt32} {s : PoolUse}

theorem consistent_init (kMinCount kMaxCount : UInt32) (connected : Nat → Bool) :
    Consistent kMinCount kMaxCount (init kMinCount kMaxCount connected) := by
  refine ⟨⟨rfl, rfl⟩, rfl, ?_, ?_, ?_, ?_, ?_, ?_⟩
  · simp only [ConnPool.inUse, init, ConnPool.new, List.countP_map, List.length_nil]
    exact List.countP_eq_zero.mpr fun i _ => Bool.false_ne_true
  · exact fun h member => absurd member List.not_mem_nil
  · exact List.nodup_nil
  · intro i w number get handler
    simp only [init, ConnPool.new, List.getElem?_map, Option.map_eq_some_iff] at get
    obtain ⟨j, found, rfl⟩ := get
    obtain ⟨_, rfl⟩ := List.getElem?_eq_some_iff.mp found
    rw [List.getElem_range] at handler
    simp only [HandlerWrapper.new, Option.ite_none_right_eq_some, Option.some.injEq] at handler
    exact handler.2.symm
  · simp [init, ConnPool.new]
  · simp only [init, ConnPool.new, List.length_map, List.length_range]
    exact Nat.le_max_left _ _

/-- A wrapper is added at the end: every index stays where it was. -/
theorem consistent_grow (connected : Bool) (consistent : Consistent kMinCount kMaxCount s)
    (room : s.pool.handlerWrappers.length < s.pool.kMaxCount.toNat) :
    Consistent kMinCount kMaxCount ⟨s.pool.grow connected, s.alive⟩ := by
  obtain ⟨config, counter, used, holds, distinct, numbered, lower, upper⟩ := consistent
  have length : (s.pool.grow connected).handlerWrappers.length =
      s.pool.handlerWrappers.length + 1 := by
    simp [ConnPool.grow]
  refine ⟨config, counter, ?_, ?_, distinct, ?_, ?_, ?_⟩
  · simpa only [ConnPool.inUse, ConnPool.grow, List.countP_append, List.countP_singleton,
      HandlerWrapper.new, Bool.false_eq_true, if_false, Nat.add_zero] using used
  · intro h member
    have get := holds h member
    have bound := (List.getElem?_eq_some_iff.mp get).1
    exact (List.getElem?_append_left bound).trans get
  · intro i w number get handler
    by_cases old : i < s.pool.handlerWrappers.length
    · exact numbered i w number ((List.getElem?_append_left old).symm.trans get) handler
    · have bound : i < (s.pool.grow connected).handlerWrappers.length :=
        (List.getElem?_eq_some_iff.mp get).1
      obtain rfl : i = s.pool.handlerWrappers.length := by omega
      have last : w = .new s.pool.handlerWrappers.length connected := by
        simpa [ConnPool.grow] using get.symm
      rw [last, HandlerWrapper.new, Option.ite_none_right_eq_some] at handler
      exact (Option.some.inj handler.2).symm
  · rw [length]
    omega
  · rw [length, ← config.2]
    exact Nat.le_trans room (Nat.le_max_right _ _)

/-- A free wrapper is handed out. -/
theorem consistent_allocate (consistent : Consistent kMinCount kMaxCount s) {i : Nat}
    {w : HandlerWrapper} (get : s.pool.handlerWrappers[i]? = some w) (free : w.isUsing = false) :
    Consistent kMinCount kMaxCount
      ⟨(s.pool.allocateConnHandler w i).2, s.alive ++ [(s.pool.allocateConnHandler w i).1]⟩ := by
  obtain ⟨config, counter, used, holds, distinct, numbered, lower, upper⟩ := consistent
  obtain ⟨bound, value⟩ := List.getElem?_eq_some_iff.mp get
  have other : ∀ h ∈ s.alive, h.index ≠ i := by
    intro h member same
    have taken := holds h member
    rw [same, get] at taken
    rw [Option.some.inj taken] at free
    contradiction
  refine ⟨config, ?_, ?_, ?_, ?_, ?_, ?_, ?_⟩
  · rw [List.length_append, ConnPool.allocateConnHandler, counter, List.length_singleton,
      Int32.ofNat_add]
    rfl
  · simp only [ConnPool.inUse, ConnPool.allocateConnHandler, List.length_append,
      List.length_singleton, List.countP_set bound, value, free, Bool.false_eq_true, if_false,
      if_true, Nat.sub_zero]
    exact congrArg (· + 1) used
  · intro h member
    rcases List.mem_append.mp member with old | new
    · exact (List.getElem?_set_ne (other h old).symm).trans (holds h old)
    · rw [List.mem_singleton.mp new]
      exact List.getElem?_set_self bound
  · rw [List.map_append, List.map_singleton]
    refine List.nodup_append.mpr ⟨distinct, List.nodup_singleton i, ?_⟩
    intro index member other' new
    obtain ⟨h, old, rfl⟩ := List.mem_map.mp member
    rw [List.mem_singleton.mp new]
    exact other h old
  · intro j v number get' handler
    by_cases here : i = j
    · subst here
      obtain rfl := Option.some.inj ((List.getElem?_set_self bound).symm.trans get')
      exact numbered i w number get handler
    · exact numbered j v number ((List.getElem?_set_ne here).symm.trans get') handler
  · simpa only [ConnPool.allocateConnHandler, List.length_set] using lower
  · simpa only [ConnPool.allocateConnHandler, List.length_set] using upper

theorem consistent_request (connected : Bool) (consistent : Consistent kMinCount kMaxCount s) :
    Consistent kMinCount kMaxCount
      ⟨(s.pool.requestHandler connected).2,
        s.alive ++ (s.pool.requestHandler connected).1.toList⟩ := by
  generalize result : s.pool.requestHandler connected = answer
  have requested : ConnPool.Requested s.pool connected answer :=
    result ▸ s.pool.requestHandler_requested connected
  cases requested with
  | nothing => simpa using consistent
  | free i w _ get free => exact consistent_allocate consistent get free
  | grown w _ _ room made =>
    subst made
    exact consistent_allocate (consistent_grow connected consistent room)
      (s.pool.grow_last connected) rfl

theorem index_injective {alive : List ConnHandler} (distinct : (alive.map (·.index)).Nodup)
    {i j : Nat} {h k : ConnHandler} (first : alive[i]? = some h) (second : alive[j]? = some k)
    (same : h.index = k.index) : i = j := by
  have inside := (List.getElem?_eq_some_iff.mp first).1
  apply (List.getElem?_inj (by simpa using inside) distinct).mp
  rw [List.getElem?_map, List.getElem?_map, first, second, Option.map_some, Option.map_some, same]

/-- A handler is destroyed: the others hold other wrappers. -/
theorem consistent_destroy {k : Nat} {h : ConnHandler} {pool : ConnPool}
    (consistent : Consistent kMinCount kMaxCount s) (get : s.alive[k]? = some h)
    (released : s.pool.releaseConnHandler h.index = some pool) :
    Consistent kMinCount kMaxCount ⟨pool, s.alive.eraseIdx k⟩ := by
  obtain ⟨config, counter, used, holds, distinct, numbered, lower, upper⟩ := consistent
  have inside := (List.getElem?_eq_some_iff.mp get).1
  have held := holds h (List.mem_of_getElem? get)
  obtain ⟨bound, value⟩ := List.getElem?_eq_some_iff.mp held
  rw [ConnPool.releaseConnHandler, held, Option.map_some, Option.some.injEq] at released
  subst released
  have length := List.length_eraseIdx_of_lt inside
  have others : ∀ other ∈ s.alive.eraseIdx k, other.index ≠ h.index := by
    intro other member same
    obtain ⟨j, differ, found⟩ := List.mem_eraseIdx_iff_getElem?.mp member
    exact differ (index_injective distinct found get same)
  refine ⟨config, ?_, ?_, ?_, ?_, ?_, ?_, ?_⟩
  · have one : s.alive.length = (s.alive.eraseIdx k).length + 1 := by omega
    rw [counter, one, Int32.ofNat_add]
    exact Int32.add_sub_cancel _ _
  · simp only [ConnPool.inUse, List.countP_set bound, value, if_true, Bool.false_eq_true, if_false,
      Nat.add_zero, length]
    exact congrArg (· - 1) used
  · intro h member
    exact (List.getElem?_set_ne (others h member).symm).trans
      (holds h (List.mem_of_mem_eraseIdx member))
  · exact distinct.sublist ((List.eraseIdx_sublist s.alive k).map _)
  · intro j v number get' handler
    by_cases here : h.index = j
    · subst here
      obtain rfl := Option.some.inj ((List.getElem?_set_self bound).symm.trans get')
      exact numbered _ _ number held handler
    · exact numbered j v number ((List.getElem?_set_ne here).symm.trans get') handler
  · simpa only [List.length_set] using lower
  · simpa only [List.length_set] using upper

theorem consistent_step (s : PoolUse) (a : Action) (t : PoolUse)
    (consistent : Consistent kMinCount kMaxCount s) (stepped : step s a = some t) :
    Consistent kMinCount kMaxCount t := by
  cases a with
  | request connected =>
    obtain rfl := Option.some.inj stepped
    exact consistent_request connected consistent
  | destroy k =>
    obtain ⟨h, get, after⟩ := Option.bind_eq_some_iff.mp stepped
    obtain ⟨pool, released, rfl⟩ := Option.map_eq_some_iff.mp after
    exact consistent_destroy consistent get released

theorem consistent_reachable {connected : Nat → Bool}
    (reached : Reachable step (init kMinCount kMaxCount connected) s) :
    Consistent kMinCount kMaxCount s :=
  reached.invariant consistent_step (consistent_init kMinCount kMaxCount connected)

/-- The three records agree, every handler alive holds the connection of a wrapper
of its own, and the pool keeps its bounds. -/
structure Accounted (kMinCount kMaxCount : UInt32) (s : PoolUse) : Prop where
  counter : s.pool.usingHandlerCount.toInt = s.pool.inUse
  alive : s.pool.inUse = s.alive.length
  wrapper : ∀ h ∈ s.alive, ∃ w, s.pool.handlerWrappers[h.index]? = some w ∧ w.isUsing = true ∧
    w.handler = h.handler
  distinct : ∀ (i j : Nat) (h k : ConnHandler), s.alive[i]? = some h → s.alive[j]? = some k →
    h.index = k.index → i = j
  exclusive : ∀ (i j : Nat) (h k : ConnHandler) (number : Nat), s.alive[i]? = some h →
    s.alive[j]? = some k → h.handler = some number → k.handler = some number → i = j
  lower : kMinCount.toNat ≤ s.pool.handlerWrappers.length
  upper : s.pool.handlerWrappers.length ≤ max kMinCount.toNat kMaxCount.toNat

theorem toInt_ofNat {n : Nat} : (Int32.ofNat n).toInt = n ↔ n < 2 ^ 31 := by
  rw [Int32.toInt_ofNat', Int.bmod_def]
  simp only [Int32.size]
  omega

theorem accounted_of_consistent (consistent : Consistent kMinCount kMaxCount s)
    (few : s.alive.length < 2 ^ 31) : Accounted kMinCount kMaxCount s where
  counter := by
    rw [consistent.counter, consistent.inUse]
    exact toInt_ofNat.mpr few
  alive := consistent.inUse
  wrapper h member := ⟨_, consistent.holds h member, rfl, rfl⟩
  distinct i j h k first second := index_injective consistent.distinct first second
  exclusive i j h k number first second mine other := by
    have left := consistent.holds h (List.mem_of_getElem? first)
    have right := consistent.holds k (List.mem_of_getElem? second)
    apply index_injective consistent.distinct first second
    rw [← consistent.numbered _ _ number left mine, ← consistent.numbered _ _ number right other]
  lower := consistent.lower
  upper := consistent.upper

/-- What the wait looks at: a counter that has overflowed, which no size equals, a
free wrapper, or room for one more. -/
theorem isCondSatisfied_iff (consistent : Consistent kMinCount kMaxCount s) :
    s.pool.isCondSatisfied = true ↔ 2 ^ 31 ≤ s.alive.length ∨
      s.pool.inUse < s.pool.handlerWrappers.length ∨
      s.pool.handlerWrappers.length < s.pool.kMaxCount.toNat := by
  have lowest := kMinCount.toNat_lt
  have highest := kMaxCount.toNat_lt
  have upper := consistent.upper
  have used := consistent.inUse
  have bound := s.pool.inUse_le
  have compared : (s.pool.handlerWrappers.length : Int) ≠
      (Int32.ofNat s.alive.length).toInt % 2 ^ 64 ↔
        2 ^ 31 ≤ s.alive.length ∨ s.pool.inUse < s.pool.handlerWrappers.length := by
    rw [Int32.toInt_ofNat', Int.bmod_def]
    simp only [Int32.size]
    omega
  simp only [ConnPool.isCondSatisfied, consistent.counter, Bool.or_eq_true, decide_eq_true_eq,
    compared, or_assoc]

/-- While the pool is not exhausted, a request succeeds, whatever the counter says. -/
theorem request_succeeds (consistent : Consistent kMinCount kMaxCount s)
    (room : s.alive.length < max kMinCount.toNat kMaxCount.toNat) (connected : Bool) :
    ∃ h, (s.pool.requestHandler connected).1 = some h := by
  have used := consistent.inUse
  have bound := s.pool.inUse_le
  have lower := consistent.lower
  have grows (full : s.pool.inUse = s.pool.handlerWrappers.length) :
      s.pool.handlerWrappers.length < s.pool.kMaxCount.toNat := by
    rw [consistent.config.2]
    omega
  have satisfied : s.pool.isCondSatisfied = true := by
    apply (isCondSatisfied_iff consistent).mpr
    rcases Nat.lt_or_eq_of_le bound with free | full
    · exact .inr (.inl free)
    · exact .inr (.inr (grows full))
  simp only [ConnPool.requestHandler, satisfied, Bool.not_true, Bool.false_eq_true, if_false]
  cases found : ConnPool.scan 0 s.pool.handlerWrappers with
  | some free => exact ⟨_, rfl⟩
  | none => exact ⟨_, by rw [if_pos (grows (ConnPool.scan_none.mp found))]⟩

/-- Any number of handlers up to the size of the pool can be alive at once. -/
theorem reaches_alive (connected : Nat → Bool) {n : Nat}
    (room : n ≤ max kMinCount.toNat kMaxCount.toNat) :
    ∃ s, Reachable step (init kMinCount kMaxCount connected) s ∧ s.alive.length = n := by
  induction n with
  | zero => exact ⟨_, .refl _, rfl⟩
  | succ n ih =>
    obtain ⟨s, reached, count⟩ := ih (by omega)
    obtain ⟨h, succeeded⟩ := request_succeeds (consistent_reachable reached) (by omega) true
    refine ⟨_, reached.next (a := .request true) rfl, ?_⟩
    rw [succeeded, List.length_append, count]
    rfl

/-- The pool is accounted for in every reachable state exactly when its size fits
the counter. -/
theorem accounted_iff (kMinCount kMaxCount : UInt32) (connected : Nat → Bool) :
    (∀ s, Reachable step (init kMinCount kMaxCount connected) s → Accounted kMinCount kMaxCount s) ↔
      max kMinCount.toNat kMaxCount.toNat < 2 ^ 31 := by
  constructor
  · intro accounted
    by_contra large
    obtain ⟨s, reached, count⟩ := reaches_alive connected (Nat.not_lt.mp large)
    have consistent := consistent_reachable reached
    have counter := (accounted s reached).counter
    rw [consistent.counter, consistent.inUse, count] at counter
    exact absurd (toInt_ofNat.mp counter) (by omega)
  · intro small s reached
    have consistent := consistent_reachable reached
    have bound := s.pool.inUse_le
    have used := consistent.inUse
    have upper := consistent.upper
    exact accounted_of_consistent consistent (by omega)

theorem counter_overflows :
    ∃ s, Reachable step (init 0 0x80000000 fun _ => true) s ∧
      s.alive.length = 2 ^ 31 ∧ s.pool.usingHandlerCount.toInt = -2 ^ 31 ∧
      ¬ Accounted 0 0x80000000 s := by
  obtain ⟨s, reached, count⟩ : ∃ s, Reachable step (init 0 0x80000000 fun _ => true) s ∧
      s.alive.length = 2 ^ 31 := reaches_alive (fun _ => true) (by decide)
  have counter : s.pool.usingHandlerCount.toInt = -2 ^ 31 := by
    rw [(consistent_reachable reached).counter, count]
    decide
  refine ⟨s, reached, count, counter, fun accounted => ?_⟩
  have right := accounted.counter
  rw [counter, accounted.alive, count] at right
  exact absurd right (by decide)

end PoolUse
end Shbk2
