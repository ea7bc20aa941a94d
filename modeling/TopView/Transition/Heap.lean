import Mathlib.Data.List.Basic

namespace topview.transition

/-! A heap is a list of objects, which are named by the order of their creation. -/

/-- A new object gets the next name, and the older ones keep theirs. -/
theorem getElem?_snoc_eq_some_iff {A : Type} {list : List A} {last value : A} {index : Nat} :
    (list ++ [last])[index]? = some value ↔
      list[index]? = some value ∨ index = list.length ∧ last = value := by
  rcases Nat.lt_trichotomy index list.length with hlt | rfl | hgt
  · rw [List.getElem?_append_left hlt, or_iff_left (fun hend => by omega)]
  · simp
  · rw [List.getElem?_eq_none (by simp; omega), List.getElem?_eq_none (Nat.le_of_lt hgt)]
    simp
    omega

/-- A write changes the object that it writes to. -/
theorem getElem?_set_eq_some_iff {A : Type} {list : List A} {index other : Nat}
    {old new value : A} (hold : list[index]? = some old) :
    (list.set index new)[other]? = some value ↔
      other = index ∧ value = new ∨ other ≠ index ∧ list[other]? = some value := by
  obtain ⟨hlt, _⟩ := List.getElem?_eq_some_iff.mp hold
  rw [List.getElem?_set]
  by_cases hother : index = other
  · subst hother
    rw [if_pos rfl, if_pos hlt, Option.some.injEq, eq_comm]
    simp
  · rw [if_neg hother]
    simp [Ne.symm hother]

/-- A write that keeps a field of the object keeps that field of all objects. -/
theorem map_set_of_eq {A B : Type} {f : A → B} {list : List A} {index : Nat} {old new : A}
    (hold : list[index]? = some old) (hsame : f new = f old) :
    (list.set index new).map f = list.map f := by
  apply List.ext_getElem?
  intro position
  rw [List.getElem?_map, List.getElem?_map, List.getElem?_set]
  by_cases hposition : index = position
  · subst hposition
    obtain ⟨hlt, _⟩ := List.getElem?_eq_some_iff.mp hold
    rw [if_pos rfl, if_pos hlt, hold, Option.map_some, Option.map_some, hsame]
  · rw [if_neg hposition]

theorem map_modify_of_eq {A B : Type} {f : A → B} {g : A → A}
    (hsame : ∀ value, f (g value) = f value) (list : List A) (index : Nat) :
    (list.modify index g).map f = list.map f := by
  apply List.ext_getElem?
  intro position
  rw [List.getElem?_map, List.getElem?_map, List.getElem?_modify]
  cases list[position]? with
  | none => rfl
  | some value =>
    by_cases hposition : index = position
    · simp [hposition, hsame]
    · simp [hposition]

end topview.transition
