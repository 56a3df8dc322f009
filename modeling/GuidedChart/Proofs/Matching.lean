import GuidedChart.Value.Basic
import Mathlib.Logic.Relation

/-!
# Values that answer a target

A list of one item is taken for its item, once on the side of the target and once on the side of
the value. So answering is an equivalence (`answers_iff_unwrap_eq`), and no class of it has more
than two values: one that is no list of one item, and the list of that one (`answers_iff`). A list
of one item that is such a list itself is not answered by its item.
-/

namespace GuidedChart.Value

variable {v w : Value}

/-- Is the value a list of one item? -/
def IsSingleton (v : Value) : Prop :=
  ∃ item, v = .list [item]

theorem unwrap_singleton (item : Value) : unwrap (.list [item]) = item := rfl

theorem list_singleton_ne (v : Value) : .list [v] ≠ v := fun h => by
  have hsize := congrArg sizeOf h
  simp only [list.sizeOf_spec, List.cons.sizeOf_spec, List.nil.sizeOf_spec] at hsize
  omega

/-- Only a list of one item is taken for something else. -/
theorem unwrap_eq_self_iff : v.unwrap = v ↔ ¬ v.IsSingleton := by
  constructor
  · rintro h ⟨item, rfl⟩
    exact list_singleton_ne item h.symm
  · intro h
    unfold unwrap
    split
    · rename_i item
      exact absurd ⟨item, rfl⟩ h
    · rfl

theorem answers_iff_unwrap_eq : v.Answers w ↔ v.unwrap = w.unwrap :=
  or_iff_right_of_imp (congrArg unwrap)

theorem equivalence_answers : Equivalence Answers where
  refl _ := Or.inl rfl
  symm h := answers_iff_unwrap_eq.2 (answers_iff_unwrap_eq.1 h).symm
  trans h h' := answers_iff_unwrap_eq.2
    ((answers_iff_unwrap_eq.1 h).trans (answers_iff_unwrap_eq.1 h'))

/-- An item that is no list of one item answers for the list of it. -/
theorem answers_singleton_iff : (Value.list [v]).Answers v ↔ ¬ v.IsSingleton := by
  rw [answers_iff_unwrap_eq, unwrap_singleton, eq_comm, unwrap_eq_self_iff]

/-- Two values in one class are equal, or one is the list of the other. -/
theorem answers_iff :
    v.Answers w ↔
      v = w ∨ v = .list [w] ∧ ¬ w.IsSingleton ∨ w = .list [v] ∧ ¬ v.IsSingleton := by
  constructor
  · intro h
    rw [answers_iff_unwrap_eq] at h
    by_cases hv : v.IsSingleton <;> by_cases hw : w.IsSingleton
    · obtain ⟨a, rfl⟩ := hv
      obtain ⟨b, rfl⟩ := hw
      exact Or.inl (congrArg (fun item => Value.list [item]) h)
    · obtain ⟨a, rfl⟩ := hv
      rw [unwrap_singleton, unwrap_eq_self_iff.2 hw] at h
      exact Or.inr (Or.inl ⟨by rw [h], hw⟩)
    · obtain ⟨b, rfl⟩ := hw
      rw [unwrap_singleton, unwrap_eq_self_iff.2 hv] at h
      exact Or.inr (Or.inr ⟨by rw [h], hv⟩)
    · rw [unwrap_eq_self_iff.2 hv, unwrap_eq_self_iff.2 hw] at h
      exact Or.inl h
  · rintro (rfl | ⟨rfl, hw⟩ | ⟨rfl, hv⟩)
    · exact equivalence_answers.refl v
    · exact answers_singleton_iff.2 hw
    · exact equivalence_answers.symm (answers_singleton_iff.2 hv)

/-- Answering is an equivalence. Apart from equal values it relates an item and the list of that
item, in both directions, as long as the item is no list of one item itself. -/
theorem classes_of_answers (v w : Value) :
    Equivalence Answers ∧
      (v.Answers w ↔
        v = w ∨ v = .list [w] ∧ ¬ w.IsSingleton ∨ w = .list [v] ∧ ¬ v.IsSingleton) ∧
      ((Value.list [v]).Answers v ↔ ¬ v.IsSingleton) ∧
      (v.Answers (.list [v]) ↔ ¬ v.IsSingleton) := by
  have hsymm : v.Answers (.list [v]) ↔ (Value.list [v]).Answers v :=
    ⟨equivalence_answers.symm, equivalence_answers.symm⟩
  refine ⟨equivalence_answers, answers_iff, answers_singleton_iff, ?_⟩
  rw [hsymm, answers_singleton_iff]

/-- Both sides lose a list, so the list of a list of one item and that item stay apart. -/
theorem not_answers_of_twice_listed :
    ¬ (Value.list [.list [.number 10]]).Answers (.list [.number 10]) ∧
      ¬ (Value.list [.number 10]).Answers (.list [.list [.number 10]]) := by
  decide

end GuidedChart.Value
