import Shbk2.PoolAccounting

/-! Connections that could not be made. A wrapper is kept whether or not it has a
connection, and nothing looks at it again but the scan for a free one. -/
namespace Shbk2
open Transition
namespace PoolUse

/-- No handler outside the pool, and no entry of it, is without a connection. -/
structure Sound (s : PoolUse) : Prop where
  handedOut : ∀ h ∈ s.alive, h.handler.isSome = true
  entries : ∀ w ∈ s.pool.handlerWrappers, w.handler.isSome = true

/-- A connection the request has to make can be made. -/
def Connects (s : PoolUse) : Action → Prop
  | .request connected => (∀ w ∈ s.pool.handlerWrappers, w.isUsing = true) →
      s.pool.handlerWrappers.length < s.pool.kMaxCount.toNat → connected = true
  | .destroy _ => True

variable {s t : PoolUse}

theorem sound_init {kMinCount kMaxCount : UInt32} {connected : Nat → Bool} :
    Sound (init kMinCount kMaxCount connected) ↔ ∀ i < kMinCount.toNat, connected i = true := by
  have made (i : Nat) : (HandlerWrapper.new i (connected i)).handler.isSome = connected i := by
    cases up : connected i <;> rfl
  constructor
  · intro sound i bound
    rw [← made i]
    exact sound.entries _ (List.mem_map_of_mem (List.mem_range.mpr bound))
  · intro all
    refine ⟨fun h member => absurd member List.not_mem_nil, ?_⟩
    intro w member
    obtain ⟨i, bound, rfl⟩ := List.mem_map.mp member
    rw [made i]
    exact all i (List.mem_range.mp bound)

/-- Handing out a connected wrapper. -/
theorem sound_allocate {pool : ConnPool} {alive : List ConnHandler} {w : HandlerWrapper} {i : Nat}
    (handedOut : ∀ h ∈ alive, h.handler.isSome = true)
    (entries : ∀ w ∈ pool.handlerWrappers, w.handler.isSome = true)
    (connected : w.handler.isSome = true) :
    Sound ⟨(pool.allocateConnHandler w i).2, alive ++ [(pool.allocateConnHandler w i).1]⟩ := by
  constructor
  · intro h member
    rcases List.mem_append.mp member with old | new
    · exact handedOut h old
    · rw [List.mem_singleton.mp new]
      exact connected
  · intro v member
    rcases List.mem_or_eq_of_mem_set member with old | rfl
    · exact entries v old
    · exact connected

theorem sound_request {connected : Bool} (sound : Sound s)
    (connects : Connects s (.request connected)) :
    Sound ⟨(s.pool.requestHandler connected).2,
      s.alive ++ (s.pool.requestHandler connected).1.toList⟩ := by
  generalize result : s.pool.requestHandler connected = answer
  have requested : ConnPool.Requested s.pool connected answer :=
    result ▸ s.pool.requestHandler_requested connected
  cases requested with
  | nothing => simpa using sound
  | free i w _ get _ =>
    exact sound_allocate sound.handedOut sound.entries (sound.entries w (List.mem_of_getElem? get))
  | grown w _ full room made =>
    have up : w.handler.isSome = true := by
      rw [made, connects (ConnPool.inUse_full.mp full) room]
      rfl
    apply sound_allocate sound.handedOut _ up
    intro v member
    rcases List.mem_append.mp member with old | new
    · exact sound.entries v old
    · rw [List.mem_singleton.mp new, ← made]
      exact up

theorem sound_step (s : PoolUse) (a : Action) (t : PoolUse) (sound : Sound s)
    (connects : Connects s a) (stepped : step s a = some t) : Sound t := by
  cases a with
  | request connected =>
    obtain rfl := Option.some.inj stepped
    exact sound_request sound connects
  | destroy k =>
    obtain ⟨h, get, after⟩ := Option.bind_eq_some_iff.mp stepped
    obtain ⟨pool, released, rfl⟩ := Option.map_eq_some_iff.mp after
    obtain ⟨w, held, rfl⟩ := Option.map_eq_some_iff.mp released
    refine ⟨fun h member => sound.handedOut h (List.mem_of_mem_eraseIdx member), ?_⟩
    intro v member
    rcases List.mem_or_eq_of_mem_set member with old | rfl
    · exact sound.entries v old
    · exact sound.entries w (List.mem_of_getElem? held)

/-- A failed attempt stays behind as an entry. -/
theorem connects_of_sound (s : PoolUse) (a : Action) (t : PoolUse)
    (stepped : step s a = some t) (sound : Sound t) : Connects s a := by
  cases a with
  | destroy k => trivial
  | request connected =>
    intro full room
    obtain rfl := Option.some.inj stepped
    generalize result : s.pool.requestHandler connected = answer at sound
    have requested : ConnPool.Requested s.pool connected answer :=
      result ▸ s.pool.requestHandler_requested connected
    cases requested with
    | nothing exhausted =>
      have satisfied : s.pool.isCondSatisfied = true := by simp [ConnPool.isCondSatisfied, room]
      exact absurd room (Nat.not_lt.mpr (exhausted satisfied).2)
    | free i w _ get free =>
      rw [full w (List.mem_of_getElem? get)] at free
      contradiction
    | grown w _ _ _ made =>
      have up := sound.handedOut _ (List.mem_append_right _ List.mem_cons_self)
      rw [made] at up
      cases connected with
      | true => rfl
      | false => contradiction

/-- The pool is sound all along a run exactly when no attempt to connect in it fails. -/
theorem sound_iff_connects {kMinCount kMaxCount : UInt32} {connected : Nat → Bool}
    {actions : List Action} (ran : run step (init kMinCount kMaxCount connected) actions = some t) :
    Always step Sound (init kMinCount kMaxCount connected) actions ↔
      (∀ i < kMinCount.toNat, connected i = true) ∧
        Along step Connects (init kMinCount kMaxCount connected) actions := by
  have iff (initial : Sound (init kMinCount kMaxCount connected)) :=
    always_iff_along sound_step (fun _ sound => sound)
      (fun s a t _ stepped sound => connects_of_sound s a t stepped sound) initial ran
  constructor
  · intro always
    have initial := always [] _ List.nil_prefix rfl
    exact ⟨sound_init.mp initial, (iff initial).mp always⟩
  · rintro ⟨all, connects⟩
    exact (iff (sound_init.mpr all)).mpr connects

/-- The growing request cannot connect. -/
theorem sound_iff_connects_outage :
    Always step Sound (init 1 2 fun _ => true) [.request true, .request false] ↔
      (∀ i < (1 : UInt32).toNat, true = true) ∧
        Along step Connects (init 1 2 fun _ => true) [.request true, .request false] :=
  sound_iff_connects (t := ⟨⟨1, 2, 2, [⟨some 0, true⟩, ⟨none, true⟩]⟩, [⟨some 0, 0⟩, ⟨none, 1⟩]⟩) rfl

/-- After the outage the database answers again, but the only slot of the pool is
taken by the attempt that failed, and the next request gets it. -/
theorem failed_attempt_handed_out :
    ∃ s, run step (init 0 1 fun _ => true) [.request false, .destroy 0, .request true] = some s ∧
      s.alive = [⟨none, 0⟩] ∧ s.pool.handlerWrappers = [⟨none, true⟩] := ⟨_, rfl, rfl, rfl⟩

end PoolUse
end Shbk2
