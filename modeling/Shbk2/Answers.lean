import Shbk2.ServerRefinement

/-! What the server can say. Whatever the clients send and however the threads interleave,
a response carries the success code and six digits, or the code of a login that went
through or did not match. -/
namespace Shbk2
open Transition

inductive Response.Ordinary : Response → Prop where
  | identified {identifier : Int32} : SixDigits identifier →
      Ordinary (evPhoneRes identifier .kSuccess)
  | loggedIn : Ordinary (evLoginRes .kSuccess)
  | rejected : Ordinary (evLoginRes .kInvalidData)

/-- No identifier yet, or one that was drawn. -/
def Stored.Ordinary (stored : Stored) : Prop := stored.identifier = 0 ∨ SixDigits stored.identifier

def Position.Ordinary : Position → Prop
  | .identifierSet _ identifier | .phoneNumberSet identifier => SixDigits identifier
  | .returned response => response.Ordinary
  | _ => True

theorem Position.ordinary_start (request : Request) : (start request).Ordinary := by
  cases request <;> trivial

theorem Position.ordinary_step {position : Position} (ordinary : position.Ordinary)
    (session : Stored) (rand : Nat) (execution : UserDAO.Execution) :
    (position.step session rand execution).2.Ordinary := by
  cases position with
  | phoneReq message => exact sixDigits_generate rand
  | identifierSet | returned => exact ordinary
  | phoneNumberSet => exact .identified ordinary
  | loginReq | phoneNumberMatched =>
    simp only [step]
    split
    · exact .rejected
    · trivial
  | matched =>
    simp only [step]
    split
    · exact .loggedIn
    · trivial
  | absent => exact .loggedIn

theorem Stored.ordinary_step {stored : Stored} (ordinary : stored.Ordinary) (position : Position)
    (rand : Nat) (execution : UserDAO.Execution) :
    (position.step stored rand execution).1.Ordinary := by
  cases position with
  | phoneReq => exact .inr (sixDigits_generate rand)
  | _ => exact ordinary

/-- What a session holds, and what was written to its client. -/
structure Session.Ordinary (s : Session) : Prop where
  stored : s.stored.Ordinary
  output : ∀ event ∈ s.bufev.output, event.message.Ordinary

namespace MsgProxy
variable {pb : Protobuf} {self : SessionPtr} {s t : Session}

theorem ordinary_readMore (ordinary : s.Ordinary) (read : readMore s = some t) : t.Ordinary := by
  obtain ⟨block, _, read⟩ := Option.bind_eq_some_iff.mp read
  obtain ⟨stored, _, rfl⟩ := Option.map_eq_some_iff.mp read
  exact ⟨ordinary.stored, ordinary.output⟩

theorem ordinary_packStart (ordinary : s.Ordinary) : (packStart s).Ordinary := by
  unfold packStart
  split
  · exact ⟨ordinary.stored, ordinary.output⟩
  · exact ordinary

theorem ordinary_packHead (ordinary : s.Ordinary) (packed : packHead s = .ok t) : t.Ordinary := by
  unfold packHead at packed
  split at packed
  · split at packed
    · contradiction
    · rename_i u read
      have kept := ordinary_readMore ordinary read
      split at packed
      · unfold acceptHead at packed
        split at packed
        · split at packed
          · contradiction
          · obtain rfl := Except.ok.inj packed
            exact ⟨kept.stored, kept.output⟩
        · contradiction
      · obtain rfl := Except.ok.inj packed
        exact kept
  · obtain rfl := Except.ok.inj packed
    exact ordinary

theorem ordinary_packBody {event : Option ReqEvent} (ordinary : s.Ordinary)
    (packed : packBody pb self s = .ok (event, t)) : t.Ordinary := by
  unfold packBody at packed
  split at packed
  · split at packed
    · contradiction
    · rename_i u read
      have kept := ordinary_readMore ordinary read
      split at packed
      · unfold acceptBody at packed
        split at packed
        · contradiction
        · split at packed
          · contradiction
          · obtain ⟨_, rfl⟩ := Prod.mk.inj (Except.ok.inj packed)
            exact ⟨kept.stored, kept.output⟩
      · obtain ⟨_, rfl⟩ := Prod.mk.inj (Except.ok.inj packed)
        exact kept
  · obtain ⟨_, rfl⟩ := Prod.mk.inj (Except.ok.inj packed)
    exact ordinary

theorem ordinary_pack {event : Option ReqEvent} (ordinary : s.Ordinary)
    (packed : pack pb self s = .ok (event, t)) : t.Ordinary := by
  unfold pack at packed
  split at packed
  · contradiction
  · split at packed
    · contradiction
    · rename_i u head
      exact ordinary_packBody (ordinary_packHead (ordinary_packStart ordinary) head) packed

end MsgProxy

theorem NetGate.ordinary_reqCallback {pb : Protobuf} {push : ReqEvent → Bool} {o p : Object}
    (ordinary : o.session.Ordinary) (left : (reqCallback pb push o).object = some p) :
    p.session.Ordinary := by
  have noticed : o.session.noticed.Ordinary := ⟨ordinary.stored, ordinary.output⟩
  unfold reqCallback at left
  split at left
  · contradiction
  · rename_i packed
    obtain rfl := Option.some.inj left
    exact MsgProxy.ordinary_pack noticed packed
  · rename_i packed
    have kept := MsgProxy.ordinary_pack noticed packed
    split at left
    · obtain rfl := Option.some.inj left
      exact ⟨kept.stored, kept.output⟩
    · contradiction

namespace World
variable {pb : Protobuf} {db : Database} {w v : World}

structure Ordinary (w : World) : Prop where
  workers : ∀ task, some task ∈ w.workers → task.position.Ordinary
  results : ∀ event ∈ w.results, event.message.Ordinary
  sessions : ∀ addr o, w.heap addr = some o → o.session.Ordinary

theorem ordinary_init (workers : Nat) (table : List Bytes) : (init workers table).Ordinary := by
  refine ⟨fun task member => ?_, fun event member => absurd member List.not_mem_nil, nofun⟩
  exact nomatch (List.mem_replicate.mp member).2

section Sessions
variable {heap : Nat → Option Object} {addr : Nat}

theorem ordinary_update {object : Option Object}
    (sessions : ∀ addr o, heap addr = some o → o.session.Ordinary)
    (new : ∀ o, object = some o → o.session.Ordinary) :
    ∀ other o, Function.update heap addr object other = some o → o.session.Ordinary := by
  intro other o lives
  by_cases here : other = addr
  · subst here
    rw [update_same] at lives
    exact new o lives
  · rw [update_other here] at lives
    exact sessions other o lives

theorem ordinary_modify {f : Object → Object}
    (sessions : ∀ addr o, heap addr = some o → o.session.Ordinary)
    (keeps : ∀ o, o.session.Ordinary → (f o).session.Ordinary) :
    ∀ other o, modify heap addr f other = some o → o.session.Ordinary := by
  apply ordinary_update sessions
  intro p new
  obtain ⟨o, lives, rfl⟩ := Option.map_eq_some_iff.mp new
  exact keeps o (sessions addr o lives)

end Sessions

theorem ordinary_writeResults {heap : Nat → Option Object} (results : List ResEvent)
    (sessions : ∀ addr o, heap addr = some o → o.session.Ordinary)
    (all : ∀ event ∈ results, event.message.Ordinary) :
    ∀ addr o, results.foldl writeResult heap addr = some o → o.session.Ordinary := by
  induction results generalizing heap with
  | nil => exact sessions
  | cons event results ih =>
    obtain ⟨now, later⟩ := List.forall_mem_cons.mp all
    refine ih (ordinary_modify sessions fun o ordinary => ⟨ordinary.stored, ?_⟩) later
    intro written member
    rcases List.mem_append.mp member with old | new
    · exact ordinary.output written old
    · rw [List.mem_singleton.mp new]
      exact now

/-- The task of one worker has changed. -/
theorem ordinary_set {workers : List (Option Task)} {worker : Nat} {new : Option Task}
    (all : ∀ task, some task ∈ workers → task.position.Ordinary)
    (changed : ∀ task, new = some task → task.position.Ordinary) :
    ∀ task, some task ∈ workers.set worker new → task.position.Ordinary := by
  intro task member
  rcases List.mem_or_eq_of_mem_set member with old | same
  · exact all task old
  · exact changed task same.symm

theorem ordinary_step (w : World) (a : Action) (v : World) (ordinary : w.Ordinary)
    (enabled : step pb db w a = some v) : v.Ordinary := by
  obtain ⟨workers, results, sessions⟩ := ordinary
  cases stepped_of_step enabled with
  | accept addr eventType =>
    refine ⟨workers, results, ordinary_update sessions fun o new => ?_⟩
    obtain rfl := Option.some.inj new
    exact ⟨.inl rfl, fun event member => absurd member List.not_mem_nil⟩
  | arrive addr bytes =>
    exact ⟨workers, results, ordinary_modify sessions fun o kept => ⟨kept.stored, kept.output⟩⟩
  | reqCallback addr o lives =>
    refine ⟨workers, results, ordinary_update sessions fun p left => ?_⟩
    exact NetGate.ordinary_reqCallback (sessions addr o lives) left
  | errCallback addr events =>
    refine ⟨workers, results, ordinary_update sessions fun p left => ?_⟩
    rw [(errCallback_none events).1] at left
    contradiction
  | take worker event rest =>
    refine ⟨ordinary_set workers fun task same => ?_, results, sessions⟩
    obtain rfl := Option.some.inj same
    exact Position.ordinary_start event.message
  | work worker rand garbage outcome event position busy =>
    have before := workers _ (List.mem_of_getElem? busy)
    refine ⟨ordinary_set workers fun task same => ?_, results, ordinary_modify sessions fun o kept => ?_⟩
    · obtain rfl := Option.some.inj same
      exact Position.ordinary_step before _ _ _
    · exact ⟨Stored.ordinary_step kept.stored position rand _, kept.output⟩
  | finish worker event response busy =>
    have returned : response.Ordinary := workers _ (List.mem_of_getElem? busy)
    refine ⟨ordinary_set workers nofun, ?_, ordinary_modify sessions fun o kept =>
      ⟨kept.stored, kept.output⟩⟩
    intro result member
    rcases List.mem_append.mp member with old | new
    · exact results result old
    · rw [List.mem_singleton.mp new]
      exact returned
  | handleResults =>
    exact ⟨workers, fun event member => absurd member List.not_mem_nil,
      ordinary_writeResults w.results sessions results⟩

end World

/-- As long as no session is deleted while its request is handled, every response that is
in the pool's results or was written to a client is ordinary, and so is what each session
holds: `kProcessFailed` and `kMethodNotAllowed` are never sent. -/
theorem Server.answers_ordinary {pb : Protobuf} {db : Database} {hardwareConcurrency : Nat}
    {handling : Nat → Position} {table : List Bytes} {actions : List Action} {s : Server}
    (ran : run (step pb db) (init hardwareConcurrency handling table) actions = some s)
    (spares : Along (step pb db) (Answered World.Spares) (init hardwareConcurrency handling table)
      actions) :
    (∀ event ∈ s.des.tp.resultsQueue, event.message.Ordinary) ∧
      ∀ addr o, s.heap addr = some o → o.session.Ordinary := by
  obtain ⟨answers, answered, _⟩ :=
    answered_run World.Spares hardwareConcurrency handling table ran spares
  have ordinary : s.world.Ordinary :=
    run_invariant World.ordinary_step (World.ordinary_init _ _) answered
  exact ⟨ordinary.results, ordinary.sessions⟩

/-- The only thread has handled a request for an identifier. -/
def Server.identifiedRun : List Action :=
  phoneRun ++ [.lock 0, .work 0 23456 ⟨[], 0⟩ .noHandler, .work 0 0 ⟨[], 0⟩ .noHandler,
    .work 0 0 ⟨[], 0⟩ .noHandler, .execute 0, .process 0]

theorem Server.answers_ordinary_phone : ∃ s, run (step WireFormat.protobuf ⟨fun _ _ => none⟩)
      (init 1 (fun _ => .returned (evLoginRes .kSuccess)) []) identifiedRun = some s ∧
    s.des.tp.resultsQueue.map (·.message) = [evPhoneRes 123456 .kSuccess] ∧
    ∀ event ∈ s.des.tp.resultsQueue, event.message.Ordinary := by
  obtain ⟨s, ran, results⟩ : ∃ s, run (step WireFormat.protobuf ⟨fun _ _ => none⟩)
        (init 1 (fun _ => .returned (evLoginRes .kSuccess)) []) identifiedRun = some s ∧
      s.des.tp.resultsQueue.map (·.message) = [evPhoneRes 123456 .kSuccess] := ⟨_, rfl, rfl⟩
  exact ⟨s, ran, results, (answers_ordinary ran (along_of_decide (by decide +kernel))).1⟩

end Shbk2
