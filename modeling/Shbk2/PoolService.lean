import Shbk2.PoolWaiting

/-! What callers of `RequestHandler` can rely on, while the counter holds the number of
handlers that are out. -/
namespace Shbk2
open Transition

/-- The looks at the predicate and releases that a caller has before it is away again, at
most; a release may wake one that sleeps. -/
def Caller.effort : Caller → Nat
  | .entering | .notified | .timedOut => 4
  | .asleep => 3
  | .holding _ => 2
  | .away => 0

namespace PoolCalls
variable {kMinCount kMaxCount : UInt32} {connected : Nat → Bool} {s t : PoolCalls}

/-- The callers go on with what they have begun: nobody calls, wakes up unasked or runs
out of time. -/
def Action.Own : Action → Prop
  | .acquire _ _ | .release _ _ => True
  | .call _ | .wakeUp _ | .expire _ => False

def effort (s : PoolCalls) : Nat := Tally.total Caller.effort s.callers

theorem effort_notifyOne {callers after : List Caller} {woken : Option Nat}
    (woke : Monitor.notifyOne Caller.phase .notified callers woken = some after) :
    Tally.total Caller.effort after ≤ Tally.total Caller.effort callers + 1 := by
  rcases notifyOne_cases woke with rfl | ⟨i, get, rfl⟩
  · exact Nat.le_succ _
  · have moved := Tally.total_set Caller.effort get .notified
    simp only [Caller.effort] at moved
    omega

theorem effort_waited {c : Caller} (waited : c = .entering ∨ c.phase = .notified) :
    c.effort = 4 := by
  rcases waited with rfl | woken
  · rfl
  · cases c <;> first | rfl | contradiction

theorem decreases : Decreases step Action.Own effort := by
  intro s a t own enabled
  cases stepped_of_step enabled with
  | call | wakeUp | expire => exact own.elim
  | returns i connects c handler pool get waited =>
    have moved := Tally.total_set Caller.effort get (.holding handler)
    rw [effort_waited waited] at moved
    simp only [effort, Caller.effort] at moved ⊢
    omega
  | sleeps i connects c get waited =>
    have moved := Tally.total_set Caller.effort get .asleep
    have four : c.effort = 4 := by rcases waited with rfl | rfl <;> rfl
    rw [four] at moved
    simp only [effort, Caller.effort] at moved ⊢
    omega
  | fails i connects c get waited =>
    have moved := Tally.total_set Caller.effort get .away
    rw [effort_waited waited] at moved
    simp only [effort, Caller.effort] at moved ⊢
    omega
  | release i woken handler pool callers get released woke =>
    have moved := Tally.total_set Caller.effort (get_notifyOne woke get) .away
    have bound := effort_notifyOne woke
    simp only [effort, Caller.effort] at moved ⊢
    omega

theorem waits_of_reachable {callers : Nat} (small : capacity kMinCount kMaxCount < 2 ^ 31)
    (reached : Reachable step (init kMinCount kMaxCount connected callers) s) :
    Uses kMinCount kMaxCount connected s ∧ Covered kMinCount kMaxCount s := by
  refine reached.invariant (P := fun s => Uses kMinCount kMaxCount connected s ∧
    Covered kMinCount kMaxCount s) ?_ ?_
  · rintro s a t ⟨uses, covered⟩ enabled
    exact ⟨uses_step uses enabled, covered_step small uses covered enabled⟩
  · refine ⟨uses_init kMinCount kMaxCount connected callers, ?_⟩
    have outside : (List.replicate callers Caller.away).map Caller.phase =
        List.replicate callers .outside := List.map_replicate
    rw [Covered, monitor, init, outside]
    exact Monitor.covered_init _ callers

theorem at_rest (uses : Uses kMinCount kMaxCount connected s) (rest : Exhausted step Action.Own s)
    {i : Nat} {c : Caller} (get : s.callers[i]? = some c) : c = .away ∨ c = .asleep := by
  cases c with
  | away => exact .inl rfl
  | asleep => exact .inr rfl
  | entering | notified =>
    have stuck := rest (.acquire i true) trivial
    simp only [step, get] at stuck
    split at stuck <;> contradiction
  | timedOut =>
    have stuck := rest (.acquire i true) trivial
    simp only [step, get] at stuck
    contradiction
  | holding handler =>
    obtain ⟨pool, released⟩ := uses.released get
    obtain ⟨woken, callers, woke⟩ := Monitor.notifyOne_enabled Caller.phase .notified s.callers
    have stuck := rest (.release i woken) trivial
    simp only [step, get, released, woke] at stuck
    contradiction

/-- Where no caller can go on, all are away: one that slept would have been woken. -/
theorem all_away (some_connection : 0 < capacity kMinCount kMaxCount)
    (uses : Uses kMinCount kMaxCount connected s) (covered : Covered kMinCount kMaxCount s)
    (rest : Exhausted step Action.Own s) : ∀ c ∈ s.callers, c = .away := by
  have still : ∀ c ∈ s.callers, c = .away ∨ c = .asleep := by
    intro c member
    obtain ⟨i, get⟩ := List.getElem?_of_mem member
    exact at_rest uses rest get
  have none : held s = [] := by
    apply List.filterMap_eq_nil_iff.mpr
    intro handler member
    obtain ⟨c, inside, rfl⟩ := List.mem_map.mp member
    rcases still c inside with rfl | rfl <;> rfl
  intro c member
  rcases still c member with away | rfl
  · exact away
  · have nobody : (s.callers.map Caller.phase).countP Monitor.Phase.isNotified = 0 := by
      apply List.countP_eq_zero.mpr
      intro phase inside
      obtain ⟨d, other, rfl⟩ := List.mem_map.mp inside
      rcases still d other with rfl | rfl <;> exact Bool.false_ne_true
    have bound : capacity kMinCount kMaxCount - (held s).length ≤
        (s.callers.map Caller.phase).countP Monitor.Phase.isNotified :=
      covered (List.mem_map_of_mem member)
    rw [nobody, none, List.length_nil] at bound
    omega

/-- A look at the predicate does not send the caller away without a handler. -/
def Grants (s : PoolCalls) (a : Action) : Prop :=
  ∀ i connects t, a = .acquire i connects → step s a = some t → t.callers[i]? ≠ some .away

def InTime (s : PoolCalls) : Prop := ∀ c ∈ s.callers, c ≠ .timedOut

/-- Before its time is over, a caller whose predicate holds is given a handler. -/
theorem grants (small : capacity kMinCount kMaxCount < 2 ^ 31)
    (uses : Uses kMinCount kMaxCount connected s) (inTime : InTime s) (a : Action) : Grants s a := by
  rintro i connects t rfl enabled
  cases stepped_of_step enabled with
  | returns _ _ c handler pool get =>
    rw [Slots.getElem?_set_new get]
    nofun
  | sleeps _ _ c get =>
    rw [Slots.getElem?_set_new get]
    nofun
  | fails _ _ c get waited ended failed =>
    rcases ended with satisfied | rfl
    · have room := (uses.satisfied_iff small).mp satisfied
      have exhausted := uses.exhausted failed
      omega
    · exact absurd rfl (inTime .timedOut (List.mem_of_getElem? get))

theorem inTime_set {i : Nat} {d : Caller} {callers : List Caller} (other : d ≠ .timedOut)
    (inTime : ∀ c ∈ callers, c ≠ .timedOut) : ∀ c ∈ callers.set i d, c ≠ .timedOut := by
  intro c member
  rcases List.mem_or_eq_of_mem_set member with old | rfl
  · exact inTime c old
  · exact other

theorem inTime_step {a : Action} (own : a.Own) (inTime : InTime s) (enabled : step s a = some t) :
    InTime t := by
  cases stepped_of_step enabled with
  | call | wakeUp | expire => exact own.elim
  | returns | sleeps | fails => exact inTime_set nofun inTime
  | release i woken handler pool callers get released woke =>
    refine inTime_set (d := .away) nofun ?_
    rcases notifyOne_cases woke with rfl | ⟨j, _, rfl⟩
    · exact inTime
    · exact inTime_set nofun inTime

/-- In a pool that can have a connection, the callers that have begun come to an end by
themselves, after a bounded number of steps, in any order: those whose time was not over
with a handler each, which they release. -/
theorem served {callers : Nat} (some_connection : 0 < capacity kMinCount kMaxCount)
    (small : capacity kMinCount kMaxCount < 2 ^ 31)
    (reached : Reachable step (init kMinCount kMaxCount connected callers) s) {more : List Action}
    (own : ∀ a ∈ more, a.Own) (after : run step s more = some t) :
    more.length ≤ s.effort ∧ (InTime s → Along step Grants s more) ∧
      (Exhausted step Action.Own t → ∀ c ∈ t.callers, c = .away) := by
  have bound := decreases.run own after
  have all_own : Along step (fun _ a => a.Own) s more :=
    along_of_forall (fun a member _ => own a member) s
  obtain ⟨uses, _⟩ := waits_of_reachable small reached
  refine ⟨by omega, fun inTime => ?_, fun rest => ?_⟩
  · have always : Always step (fun s => Uses kMinCount kMaxCount connected s ∧ InTime s) s more :=
      always_of_along (fun s a t both own enabled =>
        ⟨uses_step both.1 enabled, inTime_step own both.2 enabled⟩) ⟨uses, inTime⟩ all_own
    exact all_own.mono always fun s a both _ => grants small both.1 both.2 a
  · obtain ⟨actions, before⟩ := reached
    have still_reached : Reachable step (init kMinCount kMaxCount connected callers) t :=
      ⟨actions ++ more, by rw [run_append, before]; exact after⟩
    obtain ⟨uses, covered⟩ := waits_of_reachable small still_reached
    exact all_away some_connection uses covered rest

/-- One connection for two callers: the second sleeps until the first releases it. -/
def sharingRun : List Action := [.call 0, .call 1, .acquire 0 true, .acquire 1 true]

def sharedRun : List Action := [.release 0 (some 1), .acquire 1 true, .release 1 none]

theorem served_two : ∃ s t, run step (init 0 1 (fun _ => true) 2) sharingRun = some s ∧
    run step s sharedRun = some t ∧ sharedRun.length ≤ s.effort ∧
      (InTime s → Along step Grants s sharedRun) ∧
      (Exhausted step Action.Own t → ∀ c ∈ t.callers, c = .away) := by
  obtain ⟨s, t, ran, after⟩ : ∃ s t, run step (init 0 1 (fun _ => true) 2) sharingRun = some s ∧
    run step s sharedRun = some t := ⟨_, _, rfl, rfl⟩
  have own : ∀ a ∈ sharedRun, a.Own := by simp [sharedRun, Action.Own]
  exact ⟨s, t, ran, after,
    served (by decide : 0 < capacity 0 1) (by decide) ⟨sharingRun, ran⟩ own after⟩

/-! With few callers. -/

/-- Every caller is away, about to look at the predicate, or holds a handler. -/
def Quick (s : PoolCalls) : Prop := ∀ c ∈ s.callers, c.phase = .outside

theorem Quick.get (quick : Quick s) {i : Nat} {c : Caller} (get : s.callers[i]? = some c) :
    c.phase = .outside :=
  quick c (List.mem_of_getElem? get)

theorem Quick.set (quick : Quick s) {i : Nat} {pool : ConnPool} (d : Caller)
    (outside : d.phase = .outside) : Quick ⟨pool, s.callers.set i d⟩ := by
  intro c member
  rcases List.mem_or_eq_of_mem_set member with old | rfl
  · exact quick c old
  · exact outside

theorem held_le_callers (s : PoolCalls) : (held s).length ≤ s.callers.length := by
  have bound := List.length_filterMap_le id (s.callers.map Caller.handler)
  rwa [List.length_map] at bound

/-- One who looks at the predicate does not hold a handler, the others hold one at most. -/
theorem held_lt_callers {i : Nat} {c : Caller} (get : s.callers[i]? = some c)
    (none : c.handler = none) : (held s).length < s.callers.length := by
  have one := (held_returned s.pool get none ⟨Option.none, 0⟩).length_eq
  have bound := held_le_callers ⟨s.pool, s.callers.set i (.holding ⟨Option.none, 0⟩)⟩
  rw [one, List.length_cons, List.length_set] at bound
  exact bound

theorem quick_step {a : Action} (small : capacity kMinCount kMaxCount < 2 ^ 31)
    (few : s.callers.length ≤ capacity kMinCount kMaxCount)
    (uses : Uses kMinCount kMaxCount connected s) (quick : Quick s) (enabled : step s a = some t) :
    Quick t ∧ t.callers.length = s.callers.length := by
  cases stepped_of_step enabled with
  | call => exact ⟨quick.set .entering rfl, List.length_set⟩
  | returns => exact ⟨quick.set _ rfl, List.length_set⟩
  | fails => exact ⟨quick.set .away rfl, List.length_set⟩
  | sleeps i connects c get waited unsatisfied =>
    have none : c.handler = none := by rcases waited with rfl | rfl <;> rfl
    have exhausted := (uses.satisfied_iff small).not.mp (Bool.eq_false_iff.mp unsatisfied)
    have fewer := held_lt_callers get none
    omega
  | wakeUp i get => exact absurd (quick.get get) nofun
  | expire i c get waited => rcases waited with rfl | rfl <;> exact absurd (quick.get get) nofun
  | release i woken handler pool callers get released woke =>
    rcases notifyOne_cases woke with rfl | ⟨j, asleep, rfl⟩
    · exact ⟨quick.set .away rfl, List.length_set⟩
    · exact absurd (quick.get asleep) nofun

theorem quick_of_reachable {callers : Nat} (small : capacity kMinCount kMaxCount < 2 ^ 31)
    (few : callers ≤ capacity kMinCount kMaxCount)
    (reached : Reachable step (init kMinCount kMaxCount connected callers) s) : Quick s := by
  have kept : (Uses kMinCount kMaxCount connected s ∧ s.callers.length = callers) ∧ Quick s := by
    refine reached.invariant (P := fun s =>
      (Uses kMinCount kMaxCount connected s ∧ s.callers.length = callers) ∧ Quick s) ?_ ?_
    · rintro s a t ⟨⟨uses, size⟩, quick⟩ enabled
      obtain ⟨still, same⟩ := quick_step small (size ▸ few) uses quick enabled
      exact ⟨⟨uses_step uses enabled, same.trans size⟩, still⟩
    · refine ⟨⟨uses_init kMinCount kMaxCount connected callers, List.length_replicate⟩, ?_⟩
      intro c member
      obtain ⟨_, rfl⟩ := List.mem_replicate.mp member
      rfl
  exact kept.2

/-- The first callers each take a connection, the others are away. -/
theorem reaches_holding (connected : Nat → Bool) {callers n : Nat}
    (room : n ≤ capacity kMinCount kMaxCount) (enough : n ≤ callers)
    (small : capacity kMinCount kMaxCount < 2 ^ 31) :
    ∃ s, Reachable step (init kMinCount kMaxCount connected callers) s ∧ (held s).length = n ∧
      ∀ j, n ≤ j → j < callers → s.callers[j]? = some .away := by
  induction n with
  | zero =>
    refine ⟨_, .refl _, by simp [held, init, Caller.handler], fun j _ bound => ?_⟩
    exact List.getElem?_replicate_of_lt bound
  | succ n ih =>
    obtain ⟨s, reached, count, away⟩ := ih (Nat.le_of_succ_le room) (Nat.le_of_succ_le enough)
    have get := away n (Nat.le_refl n) enough
    have called : step s (.call n) = some { s with callers := s.callers.set n .entering } := by
      simp only [step, get]
    obtain ⟨uses, _⟩ := waits_of_reachable small (reached.next called)
    have same : held { s with callers := s.callers.set n .entering } = held s :=
      (held_same get .entering rfl).symm
    have satisfied : s.pool.isCondSatisfied = true := by
      apply (uses.satisfied_iff small).mpr
      rw [same, count]
      exact room
    obtain ⟨handler, handed⟩ : ∃ handler, (s.pool.requestHandler true).1 = some handler := by
      refine Option.ne_none_iff_exists'.mp fun failed => ?_
      have exhausted := uses.exhausted failed
      rw [same, count] at exhausted
      omega
    have entered : (s.callers.set n .entering)[n]? = some .entering :=
      Slots.getElem?_set_new get _
    have acquired : step { s with callers := s.callers.set n .entering } (.acquire n true) =
        some ⟨(s.pool.requestHandler true).2, (s.callers.set n .entering).set n (.holding handler)⟩ := by
      simp only [step, entered, satisfied, if_true, returnHandler]
      generalize s.pool.requestHandler true = answer at handed ⊢
      obtain ⟨first, pool⟩ := answer
      obtain rfl : first = some handler := handed
      rfl
    refine ⟨_, (reached.next called).next acquired, ?_, fun j later bound => ?_⟩
    · have one := held_returned (s := { s with callers := s.callers.set n .entering })
        (s.pool.requestHandler true).2 entered rfl handler
      rw [one.length_eq, List.length_cons, same, count]
    · have other : n ≠ j := by omega
      simp only [List.getElem?_set_ne other]
      exact away j (by omega) bound

/-- Nobody ever sleeps, whatever the order of calls and releases, exactly where there are
no more callers than the pool can have connections. -/
theorem never_waits_iff (small : capacity kMinCount kMaxCount < 2 ^ 31) (connected : Nat → Bool)
    (callers : Nat) :
    (∀ s, Reachable step (init kMinCount kMaxCount connected callers) s →
        ∀ c ∈ s.callers, c ≠ .asleep) ↔
      callers ≤ capacity kMinCount kMaxCount := by
  constructor
  · intro never
    refine Nat.le_of_not_lt fun many => ?_
    obtain ⟨s, reached, count, away⟩ :=
      reaches_holding connected (Nat.le_refl _) (Nat.le_of_lt many) small
    have get := away _ (Nat.le_refl _) many
    have called : step s (.call (capacity kMinCount kMaxCount)) =
        some { s with callers := s.callers.set (capacity kMinCount kMaxCount) .entering } := by
      simp only [step, get]
    obtain ⟨uses, _⟩ := waits_of_reachable small (reached.next called)
    have same : held s = held ⟨s.pool, s.callers.set (capacity kMinCount kMaxCount) .entering⟩ :=
      held_same get .entering rfl
    have unsatisfied : ¬ s.pool.isCondSatisfied = true := by
      intro satisfied
      have room := (uses.satisfied_iff small).mp satisfied
      rw [← same, count] at room
      exact Nat.lt_irrefl _ room
    have entered := Slots.getElem?_set_new get .entering
    have asleep := Slots.getElem?_set_new entered .asleep
    have sleeps : step { s with callers := s.callers.set (capacity kMinCount kMaxCount) .entering }
        (.acquire (capacity kMinCount kMaxCount) true) = some { s with
          callers := (s.callers.set (capacity kMinCount kMaxCount) .entering).set
            (capacity kMinCount kMaxCount) .asleep } := by
      simp only [step, entered, if_neg unsatisfied]
    exact never _ ((reached.next called).next sleeps) .asleep (List.mem_of_getElem? asleep) rfl
  · intro few s reached c member asleep
    have outside := quick_of_reachable small few reached c member
    rw [asleep] at outside
    contradiction

/-- With the default sizes of the pool, nine threads are one too many. -/
theorem never_waits_iff_default :
    (∀ s, Reachable step (init 4 8 (fun _ => true) 9) s → ∀ c ∈ s.callers, c ≠ .asleep) ↔
      9 ≤ capacity 4 8 :=
  never_waits_iff (by decide) (fun _ => true) 9

end PoolCalls
end Shbk2
