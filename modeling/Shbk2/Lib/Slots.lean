import Mathlib.Data.List.Basic
import Mathlib.Data.List.Perm.Basic

/-! A fixed number of slots, each empty or holding one item. Filling, changing and
clearing a slot add, replace and remove one item of those held, whatever the order. -/
namespace Slots
variable {α : Type}

/-- What the slots hold. -/
def held (slots : List (Option α)) : List α := slots.filterMap id

@[simp] theorem held_replicate (n : Nat) : held (List.replicate n (none : Option α)) = [] := by
  simp [held]

theorem set_split {β : Type*} {slots : List β} {i : Nat} {old : β} (get : slots[i]? = some old)
    (new : β) :
    ∃ before after, slots = before ++ old :: after ∧ slots.set i new = before ++ new :: after := by
  obtain ⟨bound, rfl⟩ := List.getElem?_eq_some_iff.mp get
  refine ⟨slots.take i, slots.drop (i + 1), ?_, ?_⟩
  · rw [List.getElem_cons_drop, List.take_append_drop]
  · rw [List.set_eq_take_append_cons_drop, if_pos bound]

theorem set_same {β : Type*} {slots : List β} {i : Nat} {item : β} (get : slots[i]? = some item) :
    slots.set i item = slots := by
  obtain ⟨before, after, split, changed⟩ := set_split get item
  rw [changed, ← split]

theorem getElem?_set_new {β : Type*} {slots : List β} {i : Nat} {old : β} (get : slots[i]? = some old)
    (new : β) : (slots.set i new)[i]? = some new :=
  List.getElem?_set_self (List.getElem?_eq_some_iff.mp get).1

/-- What stands in a list where one entry changed. -/
theorem getElem?_set_cases {β : Type*} {slots : List β} {i j : Nat} {new item : β}
    (get : (slots.set i new)[j]? = some item) :
    j = i ∧ item = new ∨ j ≠ i ∧ slots[j]? = some item := by
  by_cases here : i = j
  · subst here
    have bound : i < slots.length := by
      have longer := (List.getElem?_eq_some_iff.mp get).1
      rwa [List.length_set] at longer
    rw [List.getElem?_set_self bound] at get
    exact .inl ⟨rfl, (Option.some.inj get).symm⟩
  · rw [List.getElem?_set_ne here] at get
    exact .inr ⟨Ne.symm here, get⟩

/-- A map over the places of a list, where one entry changes and the map at its place. -/
theorem mapIdx_set {β γ : Type*} {slots : List β} {i : Nat} {item : β} {new : γ}
    {f g : Nat → β → γ} (here : f i item = new) (elsewhere : ∀ j, j ≠ i → f j = g j) :
    (slots.set i item).mapIdx f = (slots.mapIdx g).set i new := by
  apply List.ext_getElem?
  intro j
  rw [List.getElem?_mapIdx, List.getElem?_set, List.getElem?_set, List.getElem?_mapIdx,
    List.length_mapIdx]
  by_cases same : i = j
  · subst same
    rw [if_pos rfl, if_pos rfl, ← here]
    split <;> rfl
  · rw [if_neg same, if_neg same, elsewhere j (Ne.symm same)]

theorem held_fill {slots : List (Option α)} {i : Nat} (get : slots[i]? = some none) (item : α) :
    (held (slots.set i (some item))).Perm (item :: held slots) := by
  obtain ⟨before, after, rfl, changed⟩ := set_split get (some item)
  simp only [changed, held, List.filterMap_append, List.filterMap_cons, id]
  exact List.perm_middle

theorem held_get {slots : List (Option α)} {i : Nat} {item : α} (get : slots[i]? = some (some item)) :
    (held slots).Perm (item :: held (slots.set i none)) := by
  obtain ⟨before, after, rfl, changed⟩ := set_split get none
  simp only [changed, held, List.filterMap_append, List.filterMap_cons, id]
  exact List.perm_middle

theorem held_change {slots : List (Option α)} {i : Nat} {item : α}
    (get : slots[i]? = some (some item)) (other : α) :
    (held (slots.set i (some other))).Perm (other :: held (slots.set i none)) := by
  obtain ⟨before, after, rfl, changed⟩ := set_split get (some other)
  obtain ⟨bound, _⟩ := List.getElem?_eq_some_iff.mp get
  have cleared : (before ++ some item :: after).set i none =
      ((before ++ some item :: after).set i (some other)).set i none := by
    rw [List.set_set]
  have filled : ((before ++ some item :: after).set i (some other))[i]? = some (some other) := by
    rw [List.getElem?_set_self bound]
  rw [cleared]
  exact held_get filled

end Slots
