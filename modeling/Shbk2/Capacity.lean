import Shbk2.ServerRefinement

/-! How many sessions it takes to fill the pool. A session waits for one response at a
time, so what is in the pool belongs to as many sessions, as long as none of them was
deleted behind its request. -/
namespace Shbk2
open Transition

namespace World
variable {pb : Protobuf} {db : Database} {w : World}

/-- The session that something in the pool points to is handling that request. -/
theorem handling_of_item (projects : Projects pb w) (safe : NoDangling w) {item : Item}
    (member : item ∈ w.items) :
    ∃ o, w.heap item.session.addr = some o ∧ o.session.stat = .handling := by
  obtain ⟨o, lives, _⟩ := safe item member
  refine ⟨o, lives, ?_⟩
  by_contra parsing
  have none := itemsAt_parsing projects lives parsing
  exact List.not_mem_nil (none ▸ mem_itemsAt.mpr ⟨member, rfl⟩)

/-- No two items in the pool point to one address. -/
def Sparse (w : World) : Prop := ∀ addr, (w.itemsAt addr).length ≤ 1

theorem Sparse.distinct (sparse : Sparse w) : (w.items.map (·.session.addr)).Nodup := by
  apply List.nodup_iff_count.mpr
  intro addr
  have counted : (w.items.map (·.session.addr)).count addr = (w.itemsAt addr).length := by
    rw [List.count, List.countP_map, itemsAt, ← List.countP_eq_length_filter]
    rfl
  rw [counted]
  exact sparse addr

theorem Projects.sparse (projects : Projects pb w) {addr : Nat} {o : Object}
    (lives : w.heap addr = some o) : (w.itemsAt addr).length ≤ 1 := by
  rcases (projects.inv lives).items with none | ⟨only, one⟩
  · rw [none]
    exact Nat.zero_le 1
  · rw [one]
    exact Nat.le_refl 1

theorem sparse_of_noDangling (projects : Projects pb w) (safe : NoDangling w) : Sparse w := by
  intro addr
  by_cases none : w.itemsAt addr = []
  · rw [none]
    exact Nat.zero_le 1
  · obtain ⟨item, member⟩ := List.exists_mem_of_ne_nil _ none
    obtain ⟨inPool, rfl⟩ := mem_itemsAt.mp member
    obtain ⟨o, lives, _⟩ := safe item inPool
    exact projects.sparse lives

end World

namespace Server
variable {pb : Protobuf} {db : Database} {s : Server}

/-- As long as no session is deleted while its request is handled, the pool takes any
event, or as many different sessions as its queue has places are waiting for their
response. -/
theorem accepts_or_full {hardwareConcurrency : Nat} {handling : Nat → Position}
    {table : List Bytes} {actions : List Action}
    (ran : run (step pb db) (init hardwareConcurrency handling table) actions = some s)
    (spares : Along (step pb db) (Answered World.Spares) (init hardwareConcurrency handling table) actions) :
    (∀ event, s.des.accepts event = true) ∨
      ∃ addrs : List Nat, addrs.Nodup ∧ kDefaultMaxQueueSize ≤ addrs.length ∧
        ∀ addr ∈ addrs, ∃ o, s.heap addr = some o ∧ o.session.stat = .handling := by
  obtain ⟨projects, safe, kept⟩ := safe_run ran spares
  rw [kept.accepts]
  by_cases room : s.world.waiting.length < kDefaultMaxQueueSize
  · exact .inl fun event => push_iff.mpr room
  · refine .inr ⟨s.world.items.map (·.session.addr),
      (World.sparse_of_noDangling projects safe).distinct, ?_, ?_⟩
    · refine Nat.le_trans (Nat.le_of_not_lt room) ?_
      simp only [World.items, World.pool, List.length_map, List.length_append]
      omega
    · intro addr member
      obtain ⟨item, inPool, rfl⟩ := List.mem_map.mp member
      exact World.handling_of_item projects safe inPool

theorem accepts_or_full_phone : ∃ s,
    run (step WireFormat.protobuf ⟨fun _ _ => none⟩)
        (init 1 (fun _ => .returned (evLoginRes .kSuccess)) []) phoneRun = some s ∧
      ((∀ event, s.des.accepts event = true) ∨
        ∃ addrs : List Nat, addrs.Nodup ∧ kDefaultMaxQueueSize ≤ addrs.length ∧
          ∀ addr ∈ addrs, ∃ o, s.heap addr = some o ∧ o.session.stat = .handling) := by
  obtain ⟨s, ran⟩ : ∃ s, run (step WireFormat.protobuf ⟨fun _ _ => none⟩)
      (init 1 (fun _ => .returned (evLoginRes .kSuccess)) []) phoneRun = some s := ⟨_, rfl⟩
  exact ⟨s, ran, accepts_or_full ran phoneRun_spares⟩

end Server
end Shbk2
