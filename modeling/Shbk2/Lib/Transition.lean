import Mathlib.Data.List.Basic

/-! Runs of a partial, executable step function. An action list stands for the
choices of the environment and the scheduler; a run exists when every action is
enabled in the state it is taken in. Guards on steps and properties of the
states reached are related once, for every machine. -/
namespace Transition
variable {S A : Type*} {step : S → A → Option S}

def run (step : S → A → Option S) : S → List A → Option S
  | s, [] => some s
  | s, a :: as => (step s a).bind fun t => run step t as

def Reachable (step : S → A → Option S) (init s : S) : Prop :=
  ∃ actions, run step init actions = some s

/-- `P` holds in every state the run passes through, its ends included. -/
def Always (step : S → A → Option S) (P : S → Prop) (s : S) (actions : List A) : Prop :=
  ∀ before t, before <+: actions → run step s before = some t → P t

/-- Every action of the run is taken in a state that meets the guard. -/
def Along (step : S → A → Option S) (G : S → A → Prop) (s : S) (actions : List A) : Prop :=
  ∀ before a t, before ++ [a] <+: actions → run step s before = some t → G t a

@[simp] theorem run_nil (s : S) : run step s [] = some s := rfl

theorem run_cons (s : S) (a : A) (as : List A) :
    run step s (a :: as) = (step s a).bind fun t => run step t as := rfl

theorem run_append (s : S) (first last : List A) :
    run step s (first ++ last) = (run step s first).bind fun t => run step t last := by
  induction first generalizing s with
  | nil => rfl
  | cons a as ih =>
    simp only [List.cons_append, run_cons, Option.bind_assoc]
    congr 1
    funext t
    exact ih t

theorem run_concat (s : S) (as : List A) (a : A) :
    run step s (as ++ [a]) = (run step s as).bind fun t => step t a := by
  simp only [run_append, run_cons, run_nil, Option.bind_fun_some]

theorem run_cons_some {s t : S} {a : A} {as : List A} (ran : run step s (a :: as) = some t) :
    ∃ middle, step s a = some middle ∧ run step middle as = some t :=
  Option.bind_eq_some_iff.mp ran

theorem run_invariant {P : S → Prop} {s t : S} {as : List A}
    (preserves : ∀ s a t, P s → step s a = some t → P t)
    (initial : P s) (ran : run step s as = some t) : P t := by
  induction as generalizing s with
  | nil => exact Option.some.inj ran ▸ initial
  | cons a as ih =>
    obtain ⟨middle, first, rest⟩ := run_cons_some ran
    exact ih (preserves s a middle initial first) rest

namespace Reachable

theorem refl (s : S) : Reachable step s s := ⟨[], rfl⟩

theorem next {init s t : S} {a : A} (reached : Reachable step init s)
    (stepped : step s a = some t) : Reachable step init t := by
  obtain ⟨actions, ran⟩ := reached
  exact ⟨actions ++ [a], by rw [run_concat, ran]; exact stepped⟩

theorem invariant {P : S → Prop} {init s : S} (preserves : ∀ s a t, P s → step s a = some t → P t)
    (initial : P init) (reached : Reachable step init s) : P s := by
  obtain ⟨actions, ran⟩ := reached
  exact run_invariant preserves initial ran

end Reachable

theorem always_nil {P : S → Prop} {s : S} : Always step P s [] ↔ P s := by
  constructor
  · intro h
    exact h [] s (List.prefix_refl []) rfl
  · intro h before t part ran
    obtain rfl := List.prefix_nil.mp part
    exact Option.some.inj ran ▸ h

theorem always_cons {P : S → Prop} {s : S} {a : A} {as : List A} :
    Always step P s (a :: as) ↔ P s ∧ ∀ t, step s a = some t → Always step P t as := by
  constructor
  · intro h
    refine ⟨h [] s List.nil_prefix rfl, ?_⟩
    intro t first before u part ran
    exact h (a :: before) u (List.cons_prefix_cons.mpr ⟨rfl, part⟩)
      (by rw [run_cons, first]; exact ran)
  · rintro ⟨now, later⟩ before t part ran
    cases before with
    | nil => exact Option.some.inj ran ▸ now
    | cons b before =>
      obtain ⟨rfl, inner⟩ := List.cons_prefix_cons.mp part
      obtain ⟨middle, first, rest⟩ := run_cons_some ran
      exact later middle first before t inner rest

theorem along_nil {G : S → A → Prop} {s : S} : Along step G s [] := by
  intro before a t part
  exact absurd (List.prefix_nil.mp part) (by simp)

theorem along_cons {G : S → A → Prop} {s : S} {a : A} {as : List A} :
    Along step G s (a :: as) ↔ G s a ∧ ∀ t, step s a = some t → Along step G t as := by
  constructor
  · intro h
    refine ⟨h [] a s (by simp) rfl, ?_⟩
    intro t first before b u part ran
    exact h (a :: before) b u (List.cons_prefix_cons.mpr ⟨rfl, part⟩)
      (by rw [run_cons, first]; exact ran)
  · rintro ⟨now, later⟩ before b t part ran
    cases before with
    | nil =>
      obtain ⟨rfl, _⟩ := List.cons_prefix_cons.mp part
      exact Option.some.inj ran ▸ now
    | cons c before =>
      obtain ⟨rfl, inner⟩ := List.cons_prefix_cons.mp part
      obtain ⟨middle, first, rest⟩ := run_cons_some ran
      exact later middle first before b t inner rest

/-- A guard that the actions meet in every state. -/
theorem along_of_forall {G : S → A → Prop} {as : List A} (all : ∀ a ∈ as, ∀ s, G s a) (s : S) :
    Along step G s as := by
  intro before a t part _
  exact all a (part.subset (List.mem_append_right before List.mem_cons_self)) t

theorem along_cons_some {G : S → A → Prop} {s t : S} {a : A} {as : List A}
    (stepped : step s a = some t) :
    Along step G s (a :: as) ↔ G s a ∧ Along step G t as := by
  rw [along_cons]
  simp only [stepped, Option.some.injEq, forall_eq']

theorem Always.mono {P Q : S → Prop} {s : S} {as : List A} (h : Always step P s as)
    (implies : ∀ s, P s → Q s) : Always step Q s as :=
  fun before t part ran => implies t (h before t part ran)

theorem Always.final {P : S → Prop} {s t : S} {as : List A} (h : Always step P s as)
    (ran : run step s as = some t) : P t :=
  h as t (List.prefix_refl as) ran

/-- The invariant rule for guarded runs: one step under the guard keeps the
invariant, so every state of a guarded run has it. -/
theorem always_of_along {I : S → Prop} {G : S → A → Prop} {s : S} {as : List A}
    (preserves : ∀ s a t, I s → G s a → step s a = some t → I t)
    (initial : I s) (guarded : Along step G s as) : Always step I s as := by
  induction as generalizing s with
  | nil => exact always_nil.mpr initial
  | cons a as ih =>
    obtain ⟨now, later⟩ := along_cons.mp guarded
    exact always_cons.mpr
      ⟨initial, fun t first => ih (preserves s a t initial now first) (later t first)⟩

/-- What a guard gives for a step may use an invariant of the run. -/
theorem Along.mono {I : S → Prop} {G H : S → A → Prop} {s : S} {as : List A}
    (guarded : Along step G s as) (always : Always step I s as)
    (implies : ∀ s a, I s → G s a → H s a) : Along step H s as := by
  intro before a t part reached
  have inv : I t := always before t ((List.prefix_append before [a]).trans part) reached
  exact implies t a inv (guarded before a t part reached)

/-- Where a step breaks the property exactly when it breaks the guard, the
property holds all along an existing run exactly when the guard does. The
actions of the run may be assumed to meet `H`. -/
theorem always_iff_along_under {I P : S → Prop} {H G : S → A → Prop} {s t : S} {as : List A}
    (preserves : ∀ s a t, I s → H s a ∧ G s a → step s a = some t → I t)
    (implies : ∀ s, I s → P s)
    (complete : ∀ s a t, I s → H s a → step s a = some t → P t → G s a)
    (initial : I s) (assumed : Along step H s as) (ran : run step s as = some t) :
    Always step P s as ↔ Along step G s as := by
  constructor
  · intro always
    induction as generalizing s with
    | nil => exact along_nil
    | cons a as ih =>
      obtain ⟨middle, first, rest⟩ := run_cons_some ran
      obtain ⟨now, later⟩ := (along_cons_some first).mp assumed
      have kept : Always step P middle as := (always_cons.mp always).2 middle first
      have after : P middle := kept [] middle List.nil_prefix rfl
      have guard := complete s a middle initial now first after
      exact (along_cons_some first).mpr
        ⟨guard, ih (preserves s a middle initial ⟨now, guard⟩ first) later rest kept⟩
  · intro guarded
    have both : Along step (fun s a => H s a ∧ G s a) s as :=
      fun before a t part reached => ⟨assumed before a t part reached, guarded before a t part reached⟩
    exact (always_of_along preserves initial both).mono implies

theorem always_iff_along {I P : S → Prop} {G : S → A → Prop} {s t : S} {as : List A}
    (preserves : ∀ s a t, I s → G s a → step s a = some t → I t)
    (implies : ∀ s, I s → P s)
    (complete : ∀ s a t, I s → step s a = some t → P t → G s a)
    (initial : I s) (ran : run step s as = some t) :
    Always step P s as ↔ Along step G s as := by
  have assumed : Along step (fun _ _ => True) s as := fun _ _ _ _ _ => trivial
  refine always_iff_along_under ?_ implies ?_ initial assumed ran
  · intro s a t inv guards stepped
    exact preserves s a t inv guards.2 stepped
  · intro s a t inv _ stepped after
    exact complete s a t inv stepped after

end Transition
