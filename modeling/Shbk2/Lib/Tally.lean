import Shbk2.Lib.Slots

/-! What the entries of a list add up to, and how many of them have a property, when one
of them changes. -/
namespace Tally
variable {α : Type*}

/-- The weights of the entries, added up. -/
def total (weight : α → Nat) : List α → Nat
  | [] => 0
  | entry :: entries => weight entry + total weight entries

variable {entries : List α} {i : Nat} {old : α}

theorem total_append (weight : α → Nat) (first last : List α) :
    total weight (first ++ last) = total weight first + total weight last := by
  induction first with
  | nil => exact (Nat.zero_add _).symm
  | cons entry first ih => rw [List.cons_append, total, total, ih, Nat.add_assoc]

theorem total_perm (weight : α → Nat) {first last : List α} (same : first.Perm last) :
    total weight first = total weight last := by
  induction same with
  | nil => rfl
  | cons entry _ ih => rw [total, total, ih]
  | swap entry other entries => exact Nat.add_left_comm _ _ _
  | trans _ _ first second => exact first.trans second

theorem le_total (weight : α → Nat) {entry : α} (member : entry ∈ entries) :
    weight entry ≤ total weight entries := by
  obtain ⟨before, after, rfl⟩ := List.append_of_mem member
  rw [total_append, total]
  omega

theorem total_map {β : Type*} (weight : β → Nat) (f : α → β) (entries : List α) :
    total weight (entries.map f) = total (fun entry => weight (f entry)) entries := by
  induction entries with
  | nil => rfl
  | cons entry entries ih => rw [List.map_cons, total, total, ih]

theorem total_mono {light heavy : α → Nat} (le : ∀ entry ∈ entries, light entry ≤ heavy entry) :
    total light entries ≤ total heavy entries := by
  induction entries with
  | nil => exact Nat.le_refl _
  | cons entry entries ih =>
    obtain ⟨first, rest⟩ := List.forall_mem_cons.mp le
    exact Nat.add_le_add first (ih rest)

theorem total_congr {first second : α → Nat} (same : ∀ entry ∈ entries, first entry = second entry) :
    total first entries = total second entries :=
  Nat.le_antisymm (total_mono fun entry member => Nat.le_of_eq (same entry member))
    (total_mono fun entry member => Nat.le_of_eq (same entry member).symm)

/-- Less of one entry and no more of any other. -/
theorem total_lt {light heavy : α → Nat} (le : ∀ entry ∈ entries, light entry ≤ heavy entry)
    {entry : α} (member : entry ∈ entries) (less : light entry < heavy entry) :
    total light entries < total heavy entries := by
  obtain ⟨before, after, rfl⟩ := List.append_of_mem member
  have first := total_mono fun e inside => le e (List.mem_append_left _ inside)
  have last := total_mono fun e inside => le e (List.mem_append_right before (List.mem_cons_of_mem _ inside))
  rw [total_append, total_append, total, total]
  omega

theorem total_set (weight : α → Nat) (get : entries[i]? = some old) (new : α) :
    total weight (entries.set i new) + weight old = total weight entries + weight new := by
  obtain ⟨before, after, rfl, changed⟩ := Slots.set_split get new
  rw [changed, total_append, total_append, total, total]
  omega

/-- An entry changes, and with it the weight, but not for the others. -/
theorem total_set_of {before after : α → Nat} (get : entries[i]? = some old) (new : α)
    (elsewhere : ∀ j entry, j ≠ i → entries[j]? = some entry → after entry = before entry) :
    total after (entries.set i new) + before old = total before entries + after new := by
  induction entries generalizing i with
  | nil => contradiction
  | cons entry entries ih =>
    cases i with
    | zero =>
      obtain rfl := Option.some.inj get
      have rest : total after entries = total before entries := by
        refine total_congr fun e inside => ?_
        obtain ⟨j, found⟩ := List.getElem?_of_mem inside
        exact elsewhere (j + 1) e (Nat.succ_ne_zero j) found
      rw [List.set_cons_zero, total, total, rest]
      omega
    | succ i =>
      have first : after entry = before entry := elsewhere 0 entry (Nat.succ_ne_zero i).symm rfl
      have rest := ih get fun j e other found =>
        elsewhere (j + 1) e (fun same => other (Nat.succ.inj same)) found
      rw [List.set_cons_succ, total, total, first]
      omega

theorem countP_set (p : α → Bool) (get : entries[i]? = some old) (new : α) :
    (entries.set i new).countP p + (p old).toNat = entries.countP p + (p new).toNat := by
  obtain ⟨before, after, rfl, changed⟩ := Slots.set_split get new
  rw [changed]
  simp only [List.countP_append, List.countP_cons]
  cases p old <;> cases p new <;> simp <;> omega

/-- A change that keeps the property of the entry keeps the number of those that have it. -/
theorem countP_set_same (p : α → Bool) (get : entries[i]? = some old) (new : α)
    (same : p new = p old) : (entries.set i new).countP p = entries.countP p := by
  have counted := countP_set p get new
  rw [same] at counted
  exact Nat.add_right_cancel counted

/-- A change that keeps what `f` sees of the entry is not seen by `f`. -/
theorem map_set_same {β : Type*} (f : α → β) (get : entries[i]? = some old) (new : α)
    (same : f new = f old) : (entries.set i new).map f = entries.map f := by
  obtain ⟨before, after, rfl, changed⟩ := Slots.set_split get new
  rw [changed]
  simp only [List.map_append, List.map_cons, same]

theorem countP_pos (p : α → Bool) (get : entries[i]? = some old) (has : p old = true) :
    0 < entries.countP p :=
  List.countP_pos_iff.mpr ⟨old, List.mem_of_getElem? get, has⟩

end Tally
