import Shbk2.Lib.Simulation
import Shbk2.Lib.Tally

/-! Threads that wait on one condition variable for a share of what is available, with
one notification for each new share. A thread may wake up unasked. No wake-up is lost:
while a thread sleeps, every share has a woken thread that comes for it. -/
namespace Monitor
open Transition

inductive Phase where
  | outside
  | asleep
  | notified
  deriving DecidableEq

structure Waiting where
  available : Nat
  threads : List Phase

/-- `supply`: a new share and `notify_one`, which wakes a sleeping thread if there is
one; `acquire`: the wait predicate is evaluated, and a share taken if it holds; `giveUp`:
it does not hold after the time is over. -/
inductive Action where
  | supply (woken : Option Nat)
  | acquire (thread : Nat)
  | wakeUp (thread : Nat)
  | giveUp (thread : Nat)

def step (m : Waiting) : Action → Option Waiting
  | .supply none =>
    if .asleep ∈ m.threads then none else some { m with available := m.available + 1 }
  | .supply (some i) =>
    if m.threads[i]? = some .asleep then
      some ⟨m.available + 1, m.threads.set i .notified⟩
    else none
  | .acquire i =>
    match m.threads[i]? with
    | none | some .asleep => none
    | some _ =>
      if m.available = 0 then some { m with threads := m.threads.set i .asleep }
      else some ⟨m.available - 1, m.threads.set i .outside⟩
  | .wakeUp i =>
    if m.threads[i]? = some .asleep then some { m with threads := m.threads.set i .notified }
    else none
  | .giveUp i =>
    if m.threads[i]? = some .notified ∧ m.available = 0 then
      some { m with threads := m.threads.set i .outside }
    else none

def Phase.isNotified : Phase → Bool
  | .notified => true
  | _ => false

/-- While a thread sleeps, there are at least as many threads woken as shares. -/
def Covered (m : Waiting) : Prop :=
  .asleep ∈ m.threads → m.available ≤ m.threads.countP Phase.isNotified

theorem mem_of_mem_set {threads : List Phase} {i : Nat} {new : Phase} (other : new ≠ .asleep)
    (member : .asleep ∈ threads.set i new) : .asleep ∈ threads := by
  rcases List.mem_or_eq_of_mem_set member with old | same
  · exact old
  · exact absurd same.symm other

theorem covered_step (m : Waiting) (a : Action) (n : Waiting) (covered : Covered m)
    (enabled : step m a = some n) : Covered n := by
  cases a with
  | supply woken =>
    cases woken with
    | none =>
      obtain ⟨nobody, enabled⟩ := Option.ite_none_left_eq_some.mp enabled
      obtain rfl := Option.some.inj enabled
      exact fun asleep => absurd asleep nobody
    | some i =>
      obtain ⟨get, enabled⟩ := Option.ite_none_right_eq_some.mp enabled
      obtain rfl := Option.some.inj enabled
      intro _
      have before := covered (List.mem_of_getElem? get)
      have counted := Tally.countP_set Phase.isNotified get .notified
      simp only [Phase.isNotified, Bool.toNat_true, Bool.toNat_false] at counted
      simp only
      omega
  | acquire i =>
    simp only [step] at enabled
    split at enabled
    · contradiction
    · contradiction
    · rename_i phase awake get
      split at enabled
      · obtain rfl := Option.some.inj enabled
        intro _
        simp only
        omega
      · obtain rfl := Option.some.inj enabled
        intro asleep
        have before := covered (mem_of_mem_set (by decide) asleep)
        have counted := Tally.countP_set Phase.isNotified get .outside
        have one := Bool.toNat_le (Phase.isNotified phase)
        have left : Phase.isNotified .outside = false := rfl
        simp only [left, Bool.toNat_false] at counted
        simp only
        omega
  | wakeUp i =>
    obtain ⟨get, enabled⟩ := Option.ite_none_right_eq_some.mp enabled
    obtain rfl := Option.some.inj enabled
    intro asleep
    have before := covered (mem_of_mem_set (by decide) asleep)
    have counted := Tally.countP_set Phase.isNotified get .notified
    simp only [Phase.isNotified, Bool.toNat_true, Bool.toNat_false] at counted
    simp only
    omega
  | giveUp i =>
    obtain ⟨⟨get, nothing⟩, enabled⟩ := Option.ite_none_right_eq_some.mp enabled
    obtain rfl := Option.some.inj enabled
    intro _
    simp only
    omega

theorem covered_init (available threads : Nat) :
    Covered ⟨available, List.replicate threads .outside⟩ := by
  intro asleep
  obtain ⟨_, same⟩ := List.mem_replicate.mp asleep
  contradiction

section NotifyOne
variable {α : Type*} {phase : α → Phase} {notified : α} {threads after : List α}

/-- `notify_one` wakes one of the threads asleep, if there is any: the choice is made
outside. -/
def notifyOne (phase : α → Phase) (notified : α) (threads : List α) : Option Nat → Option (List α)
  | none => if .asleep ∈ threads.map phase then none else some threads
  | some i =>
    if (threads.map phase)[i]? = some .asleep then some (threads.set i notified) else none

/-- A notification wakes a thread that slept, or there is none. -/
theorem notifyOne_cases {woken : Option Nat}
    (woke : notifyOne phase notified threads woken = some after) :
    (woken = none ∧ after = threads ∧ ∀ t ∈ threads, phase t ≠ .asleep) ∨
      ∃ i t, woken = some i ∧ threads[i]? = some t ∧ phase t = .asleep ∧
        after = threads.set i notified := by
  cases woken with
  | none =>
    obtain ⟨nobody, woke⟩ := Option.ite_none_left_eq_some.mp woke
    refine .inl ⟨rfl, (Option.some.inj woke).symm, fun t member asleep => nobody ?_⟩
    exact List.mem_map.mpr ⟨t, member, asleep⟩
  | some i =>
    obtain ⟨get, woke⟩ := Option.ite_none_right_eq_some.mp woke
    rw [List.getElem?_map] at get
    obtain ⟨t, found, asleep⟩ := Option.map_eq_some_iff.mp get
    exact .inr ⟨i, t, rfl, found, asleep, (Option.some.inj woke).symm⟩

/-- Some thread can always be the one that a notification wakes, if one is needed. -/
theorem notifyOne_enabled (phase : α → Phase) (notified : α) (threads : List α) :
    ∃ woken after, notifyOne phase notified threads woken = some after := by
  by_cases asleep : .asleep ∈ threads.map phase
  · obtain ⟨i, get⟩ := List.getElem?_of_mem asleep
    exact ⟨some i, threads.set i notified, if_pos get⟩
  · exact ⟨none, threads, if_neg asleep⟩

/-- A notification comes with one more share. -/
theorem supply_notifyOne {woken : Option Nat} (wakes : phase notified = .notified)
    (woke : notifyOne phase notified threads woken = some after) (available : Nat) :
    step ⟨available, threads.map phase⟩ (.supply woken) =
      some ⟨available + 1, after.map phase⟩ := by
  cases woken with
  | none =>
    obtain ⟨nobody, woke⟩ := Option.ite_none_left_eq_some.mp woke
    obtain rfl := Option.some.inj woke
    exact if_neg nobody
  | some i =>
    obtain ⟨get, woke⟩ := Option.ite_none_right_eq_some.mp woke
    obtain rfl := Option.some.inj woke
    rw [List.map_set, wakes]
    exact if_pos get

end NotifyOne

end Monitor
