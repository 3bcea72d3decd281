import Shbk2.Lib.Simulation
import Shbk2.Lib.Slots

/-! A bounded first-in first-out queue whose jobs are taken and finished by workers,
one at a time each. Whatever the order of its steps, what the queue accepted is what was
started and what waits, what was started is what was finished and what runs, and the
results of what was finished are those grabbed and those that lie there. -/
namespace WorkQueue
open Transition
variable {Job Result : Type}

structure Queue (Job Result : Type) where
  waiting : List Job
  running : List (Option Job)
  results : List Result

inductive Action (Job Result : Type) where
  | offer (job : Job)
  | take (worker : Nat)
  | finish (worker : Nat) (result : Option Result)
  | grab

inductive Event (Job Result : Type) where
  | accepted (job : Job)
  | refused (job : Job)
  | started (job : Job)
  | finished (job : Job) (result : Option Result)
  | grabbed (results : List Result)

def init (workers : Nat) : Queue Job Result := ⟨[], List.replicate workers none, []⟩

/-- A job offered to a full queue is refused, and nothing changes. -/
def step (capacity : Nat) (q : Queue Job Result) : Action Job Result → Option (Queue Job Result)
  | .offer job =>
    if q.waiting.length ≥ capacity then some q else some { q with waiting := q.waiting ++ [job] }
  | .take worker =>
    match q.waiting, q.running[worker]? with
    | job :: rest, some none =>
      some { q with waiting := rest, running := q.running.set worker (some job) }
    | _, _ => none
  | .finish worker result =>
    match q.running[worker]? with
    | some (some _) => some { q with
        running := q.running.set worker none
        results := q.results ++ result.toList }
    | _ => none
  | .grab => some { q with results := [] }

def emits (capacity : Nat) (q : Queue Job Result) : Action Job Result → List (Event Job Result)
  | .offer job => if q.waiting.length ≥ capacity then [.refused job] else [.accepted job]
  | .take _ => (q.waiting.head?.map .started).toList
  | .finish worker result => (q.running[worker]?.join.map fun job => .finished job result).toList
  | .grab => [.grabbed q.results]

section Events

@[simp] def Event.accepts : Event Job Result → Option Job
  | .accepted job => some job
  | _ => none

@[simp] def Event.starts : Event Job Result → Option Job
  | .started job => some job
  | _ => none

@[simp] def Event.finishes : Event Job Result → Option (Job × Option Result)
  | .finished job result => some (job, result)
  | _ => none

@[simp] def Event.grabs : Event Job Result → List Result
  | .grabbed results => results
  | _ => []

variable (events : List (Event Job Result)) (event : Event Job Result)

def accepted : List Job := events.filterMap Event.accepts

def started : List Job := events.filterMap Event.starts

def finished : List (Job × Option Result) := events.filterMap Event.finishes

def grabbed : List Result := events.flatMap Event.grabs

@[simp] theorem accepted_concat :
    accepted (events ++ [event]) = accepted events ++ event.accepts.toList := by
  simp [accepted, List.filterMap_cons]
  cases event.accepts <;> rfl

@[simp] theorem started_concat :
    started (events ++ [event]) = started events ++ event.starts.toList := by
  simp [started, List.filterMap_cons]
  cases event.starts <;> rfl

@[simp] theorem finished_concat :
    finished (events ++ [event]) = finished events ++ event.finishes.toList := by
  simp [finished, List.filterMap_cons]
  cases event.finishes <;> rfl

@[simp] theorem grabbed_concat : grabbed (events ++ [event]) = grabbed events ++ event.grabs := by
  simp [grabbed]

end Events

/-- What was shown accounts for what the queue holds. -/
structure Accounts (capacity : Nat) (shown : List (Event Job Result)) (q : Queue Job Result) :
    Prop where
  order : accepted shown = started shown ++ q.waiting
  once : (started shown).Perm ((finished shown).map Prod.fst ++ Slots.held q.running)
  results : (finished shown).filterMap Prod.snd = grabbed shown ++ q.results
  bounded : q.waiting.length ≤ capacity

section Runs
variable {capacity : Nat} {shown : List (Event Job Result)} {q r : Queue Job Result}

theorem Accounts.offer (accounts : Accounts capacity shown q) (job : Job)
    (room : q.waiting.length < capacity) :
    Accounts capacity (shown ++ [.accepted job]) { q with waiting := q.waiting ++ [job] } where
  order := by simp [accounts.order]
  once := by simpa using accounts.once
  results := by simpa using accounts.results
  bounded := by
    rw [List.length_append]
    exact room

theorem Accounts.refuse (accounts : Accounts capacity shown q) (job : Job) :
    Accounts capacity (shown ++ [.refused job]) q where
  order := by simpa using accounts.order
  once := by simpa using accounts.once
  results := by simpa using accounts.results
  bounded := accounts.bounded

theorem Accounts.take (accounts : Accounts capacity shown q) {job : Job} {rest : List Job}
    {worker : Nat} (first : q.waiting = job :: rest) (idle : q.running[worker]? = some none) :
    Accounts capacity (shown ++ [.started job])
      { q with waiting := rest, running := q.running.set worker (some job) } where
  order := by simp [accounts.order, first]
  once := by
    have filled := Slots.held_fill idle job
    have running : (started shown ++ [job]).Perm
        ((finished shown).map Prod.fst ++ (Slots.held q.running ++ [job])) := by
      rw [← List.append_assoc]
      exact accounts.once.append_right [job]
    have moved := (List.perm_append_singleton job (Slots.held q.running)).trans filled.symm
    simpa using running.trans (moved.append_left _)
  results := by simpa using accounts.results
  bounded := by
    have before := accounts.bounded
    rw [first, List.length_cons] at before
    exact Nat.le_of_succ_le before

theorem Accounts.finish (accounts : Accounts capacity shown q) {job : Job} {worker : Nat}
    (result : Option Result) (busy : q.running[worker]? = some (some job)) :
    Accounts capacity (shown ++ [.finished job result])
      { q with running := q.running.set worker none, results := q.results ++ result.toList } where
  order := by simpa using accounts.order
  once := by
    have split := (Slots.held_get busy).append_left ((finished shown).map Prod.fst)
    simpa using accounts.once.trans split
  results := by
    cases result <;> simp [accounts.results]
  bounded := accounts.bounded

theorem Accounts.grab (accounts : Accounts capacity shown q) :
    Accounts capacity (shown ++ [.grabbed q.results]) { q with results := [] } where
  order := by simpa using accounts.order
  once := by simpa using accounts.once
  results := by simpa using accounts.results
  bounded := accounts.bounded

theorem accounts_step (a : Action Job Result) (accounts : Accounts capacity shown q)
    (enabled : step capacity q a = some r) :
    Accounts capacity (shown ++ emits capacity q a) r := by
  cases a with
  | offer job =>
    simp only [step, emits] at enabled ⊢
    split at enabled
    · obtain rfl := Option.some.inj enabled
      rw [if_pos ‹_›]
      exact accounts.refuse job
    · obtain rfl := Option.some.inj enabled
      rw [if_neg ‹_›]
      exact accounts.offer job (Nat.lt_of_not_le ‹_›)
  | take worker =>
    simp only [step, emits] at enabled ⊢
    split at enabled
    · rename_i job rest first idle
      obtain rfl := Option.some.inj enabled
      rw [first]
      exact accounts.take first idle
    · contradiction
  | finish worker result =>
    simp only [step, emits] at enabled ⊢
    split at enabled
    · rename_i job busy
      obtain rfl := Option.some.inj enabled
      rw [busy]
      exact accounts.finish result busy
    · contradiction
  | grab =>
    obtain rfl := Option.some.inj enabled
    exact accounts.grab

theorem accounts_init (workers : Nat) :
    Accounts capacity ([] : List (Event Job Result)) (init workers) where
  order := rfl
  once := by simp [started, finished, init]
  results := rfl
  bounded := Nat.zero_le capacity

theorem accounts_run {workers : Nat} {actions : List (Action Job Result)}
    (ran : run (step capacity) (init workers) actions = some q) :
    Accounts capacity (trace (step capacity) (emits capacity) (init workers) actions) q :=
  trace_invariant (fun _ _ a _ accounts enabled => accounts_step a accounts enabled)
    (accounts_init workers) ran

/-- With nothing waiting or running, each accepted job was finished once. -/
theorem Accounts.complete (accounts : Accounts capacity shown q) (waiting : q.waiting = [])
    (running : Slots.held q.running = []) :
    (accepted shown).Perm ((finished shown).map Prod.fst) := by
  have order := accounts.order
  have once := accounts.once
  rw [waiting, List.append_nil] at order
  rw [running, List.append_nil] at once
  exact order ▸ once

end Runs
end WorkQueue
