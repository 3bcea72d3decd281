import Shbk2.Lib.Transition

/-! What the steps of a machine show, and one machine that does for another: each step
of the one is answered by a run of the other that shows the same. Steps that use up a
measure come to an end, and where they do none of them is left to take. -/
namespace Transition
variable {S T A B E : Type*}

/-- What a run shows, step after step. -/
def trace (step : S → A → Option S) (emits : S → A → List E) : S → List A → List E
  | _, [] => []
  | s, a :: as => emits s a ++ match step s a with
    | none => []
    | some t => trace step emits t as

section Trace
variable {step : S → A → Option S} {emits : S → A → List E}

theorem trace_cons {s t : S} {a : A} (as : List A) (stepped : step s a = some t) :
    trace step emits s (a :: as) = emits s a ++ trace step emits t as := by
  rw [trace, stepped]

theorem trace_append {s t : S} {first : List A} (last : List A) (ran : run step s first = some t) :
    trace step emits s (first ++ last) = trace step emits s first ++ trace step emits t last := by
  induction first generalizing s with
  | nil =>
    obtain rfl := Option.some.inj ran
    rfl
  | cons a as ih =>
    obtain ⟨middle, stepped, rest⟩ := run_cons_some ran
    rw [List.cons_append, trace_cons _ stepped, trace_cons _ stepped, ih rest, List.append_assoc]

theorem trace_singleton {s : S} {a : A} : trace step emits s [a] = emits s a := by
  rw [trace]
  cases step s a <;> exact List.append_nil _

theorem run_singleton {s : S} {a : A} : run step s [a] = step s a := Option.bind_fun_some (step s a)

/-- What holds of what was shown so far, together with the state reached. -/
theorem trace_invariant {P : List E → S → Prop} {s t : S} {as : List A}
    (preserves : ∀ shown s a t, P shown s → step s a = some t → P (shown ++ emits s a) t)
    (initial : P [] s) (ran : run step s as = some t) : P (trace step emits s as) t := by
  suffices ∀ shown, P shown s → P (shown ++ trace step emits s as) t from
    List.nil_append (trace step emits s as) ▸ this [] initial
  clear initial
  intro shown before
  induction as generalizing s shown with
  | nil =>
    obtain rfl := Option.some.inj ran
    rw [trace, List.append_nil]
    exact before
  | cons a as ih =>
    obtain ⟨middle, stepped, rest⟩ := run_cons_some ran
    rw [trace_cons _ stepped, ← List.append_assoc]
    exact ih rest _ (preserves shown s a middle before stepped)

end Trace

/-- Every step from a related state is answered by a run that shows the same. -/
def Simulates (step : S → A → Option S) (emits : S → A → List E) (step' : T → B → Option T)
    (emits' : T → B → List E) (related : S → T → Prop) : Prop :=
  ∀ s u a t, related s u → step s a = some t →
    ∃ bs v, run step' u bs = some v ∧ trace step' emits' u bs = emits s a ∧ related t v

section Simulates
variable {step : S → A → Option S} {emits : S → A → List E} {step' : T → B → Option T}
  {emits' : T → B → List E} {related : S → T → Prop}

theorem Simulates.run (simulates : Simulates step emits step' emits' related) {s t : S} {u : T}
    {as : List A} (start : related s u) (ran : Transition.run step s as = some t) :
    ∃ bs v, Transition.run step' u bs = some v ∧
      trace step' emits' u bs = trace step emits s as ∧ related t v := by
  induction as generalizing s u with
  | nil =>
    obtain rfl := Option.some.inj ran
    exact ⟨[], u, rfl, rfl, start⟩
  | cons a as ih =>
    obtain ⟨middle, stepped, rest⟩ := run_cons_some ran
    obtain ⟨first, v, answered, shown, between⟩ := simulates s u a middle start stepped
    obtain ⟨last, w, finished, more, final⟩ := ih between rest
    refine ⟨first ++ last, w, ?_, ?_, final⟩
    · rw [run_append, answered]
      exact finished
    · rw [trace_append last answered, shown, more, trace_cons as stepped]

/-- What every reachable state of the simulating machine has, the simulated one has too. -/
theorem Simulates.reachable (simulates : Simulates step emits step' emits' related) {s t : S} {u : T}
    (start : related s u) (reached : Reachable step s t) : ∃ v, Reachable step' u v ∧ related t v := by
  obtain ⟨as, ran⟩ := reached
  obtain ⟨bs, v, answered, _, final⟩ := simulates.run start ran
  exact ⟨v, ⟨bs, answered⟩, final⟩

end Simulates

section Answers
variable {step' : T → B → Option T} {emits' : T → B → List E} {related : T → Prop}

/-- A step that shows nothing and changes nothing the other machine has. -/
theorem answered_silently {u : T} (final : related u) :
    ∃ bs v, run step' u bs = some v ∧ trace step' emits' u bs = [] ∧ related v :=
  ⟨[], u, rfl, rfl, final⟩

/-- A step answered by one step. -/
theorem answered_by {u v : T} {shown : List E} (b : B) (stepped : step' u b = some v)
    (shows_same : emits' u b = shown) (final : related v) :
    ∃ bs v, run step' u bs = some v ∧ trace step' emits' u bs = shown ∧ related v :=
  ⟨[b], v, run_singleton.trans stepped, trace_singleton.trans shows_same, final⟩

end Answers

section Guarded
variable {step : S → A → Option S} {G : S → A → Prop} {emits : S → A → List E}

open Classical in
/-- The machine that takes only the steps that meet a guard. -/
noncomputable def guarded (step : S → A → Option S) (G : S → A → Prop) (s : S) (a : A) : Option S :=
  if G s a then step s a else none

theorem guarded_eq_some {s t : S} {a : A} :
    guarded step G s a = some t ↔ G s a ∧ step s a = some t :=
  Option.ite_none_right_eq_some

/-- Its runs are the runs whose actions meet the guard. -/
theorem run_guarded {s t : S} {as : List A} :
    run (guarded step G) s as = some t ↔ run step s as = some t ∧ Along step G s as := by
  induction as generalizing s with
  | nil => exact ⟨fun ran => ⟨ran, along_nil⟩, fun both => both.1⟩
  | cons a as ih =>
    constructor
    · intro ran
      obtain ⟨middle, stepped, rest⟩ := run_cons_some ran
      obtain ⟨now, first⟩ := guarded_eq_some.mp stepped
      obtain ⟨later, along⟩ := ih.mp rest
      refine ⟨?_, (along_cons_some first).mpr ⟨now, along⟩⟩
      rw [run_cons, first]
      exact later
    · rintro ⟨ran, along⟩
      obtain ⟨middle, first, rest⟩ := run_cons_some ran
      obtain ⟨now, later⟩ := (along_cons_some first).mp along
      rw [run_cons, guarded_eq_some.mpr ⟨now, first⟩]
      exact ih.mpr ⟨rest, later⟩

/-- A guard that can be decided, evaluated along a run. -/
theorem along_of_decide [∀ s a, Decidable (G s a)] {s : S} {as : List A}
    (evaluated : (run (fun s a => if G s a then step s a else none) s as).isSome = true) :
    Along step G s as := by
  induction as generalizing s with
  | nil => exact along_nil
  | cons a as ih =>
    obtain ⟨t, ran⟩ := Option.isSome_iff_exists.mp evaluated
    obtain ⟨middle, taken, rest⟩ := run_cons_some ran
    obtain ⟨now, stepped⟩ := Option.ite_none_right_eq_some.mp taken
    exact (along_cons_some stepped).mpr ⟨now, ih (Option.isSome_iff_exists.mpr ⟨t, rest⟩)⟩

theorem along_singleton {s : S} {a : A} (now : G s a) : Along step G s [a] :=
  along_cons.mpr ⟨now, fun _ _ => along_nil⟩

/-- A guarded run goes on from where it was cut. -/
theorem along_append {s t : S} {first last : List A} (ran : run step s first = some t) :
    Along step G s (first ++ last) ↔ Along step G s first ∧ Along step G t last := by
  induction first generalizing s with
  | nil =>
    obtain rfl := Option.some.inj ran
    exact ⟨fun along => ⟨along_nil, along⟩, fun both => both.2⟩
  | cons a as ih =>
    obtain ⟨middle, stepped, rest⟩ := run_cons_some ran
    rw [List.cons_append, along_cons_some stepped, along_cons_some stepped, ih rest, and_assoc]

theorem trace_guarded {s t : S} {as : List A} (ran : run (guarded step G) s as = some t) :
    trace (guarded step G) emits s as = trace step emits s as := by
  induction as generalizing s with
  | nil => rfl
  | cons a as ih =>
    obtain ⟨middle, stepped, rest⟩ := run_cons_some ran
    rw [trace_cons as stepped, trace_cons as (guarded_eq_some.mp stepped).2, ih rest]

end Guarded

section Measure
variable {step : S → A → Option S} {counts : A → Prop} {measure : S → Nat}

/-- Each of the steps that count uses up some of the measure. -/
def Decreases (step : S → A → Option S) (counts : A → Prop) (measure : S → Nat) : Prop :=
  ∀ s a t, counts a → step s a = some t → measure t < measure s

/-- None of the steps that count can be taken. -/
def Exhausted (step : S → A → Option S) (counts : A → Prop) (s : S) : Prop :=
  ∀ a, counts a → step s a = none

/-- Of a guarded machine, no step that meets the guard. -/
theorem Exhausted.disabled {G : S → A → Prop} {s : S} (rest : Exhausted (guarded step G) counts s)
    {a : A} (counted : counts a) (met : G s a) : step s a = none := by
  by_contra enabled
  obtain ⟨t, stepped⟩ := Option.ne_none_iff_exists'.mp enabled
  have taken := guarded_eq_some.mpr ⟨met, stepped⟩
  rw [rest a counted] at taken
  contradiction

theorem Decreases.run (decreases : Decreases step counts measure) {s t : S} {as : List A}
    (all : ∀ a ∈ as, counts a) (ran : Transition.run step s as = some t) :
    as.length + measure t ≤ measure s := by
  induction as generalizing s with
  | nil =>
    obtain rfl := Option.some.inj ran
    exact Nat.le_of_eq (Nat.zero_add _)
  | cons a as ih =>
    obtain ⟨middle, stepped, rest⟩ := run_cons_some ran
    obtain ⟨first, later⟩ := List.forall_mem_cons.mp all
    have fewer := decreases s a middle first stepped
    have bound := ih later rest
    rw [List.length_cons]
    omega

/-- The steps that count can be taken until none is left. -/
theorem Decreases.exhausts (decreases : Decreases step counts measure) (s : S) :
    ∃ as t, (∀ a ∈ as, counts a) ∧ Transition.run step s as = some t ∧ Exhausted step counts t := by
  generalize bound : measure s = n
  induction n using Nat.strongRecOn generalizing s with
  | ind n ih =>
    by_cases exhausted : Exhausted step counts s
    · exact ⟨[], s, fun _ member => absurd member List.not_mem_nil, rfl, exhausted⟩
    · unfold Exhausted at exhausted
      push Not at exhausted
      obtain ⟨a, counted, enabled⟩ := exhausted
      obtain ⟨t, stepped⟩ := Option.ne_none_iff_exists'.mp enabled
      have fewer := decreases s a t counted stepped
      obtain ⟨as, u, all, ran, last⟩ := ih (measure t) (by omega) t rfl
      refine ⟨a :: as, u, List.forall_mem_cons.mpr ⟨counted, all⟩, ?_, last⟩
      rw [run_cons, stepped]
      exact ran

end Measure
end Transition
