import Mathlib.Data.List.Induction
import Mathlib.Tactic.ByContra
import Sprig.Proofs.Evaluation.Closed

/-!
Definitions made one after another.

Of several definitions of a name the last one counts, but the name stays where the first one put it.
Definitions in one scope leave the others as they are, so two in different scopes can be exchanged.
-/

namespace Sprig

namespace Bindings

/-- The bindings after the definitions `ds`. -/
def setAll (bs : Bindings) (ds : List (String × Value)) : Bindings :=
  ds.foldl (fun bs d => bs.set d.1 d.2) bs

variable {ds : List (String × Value)} {name : String}

theorem setAll_append_singleton (bs : Bindings) (ds : List (String × Value))
    (d : String × Value) : bs.setAll (ds ++ [d]) = (bs.setAll ds).set d.1 d.2 := by
  simp [setAll]

theorem get?_setAll_of_notMem (bs : Bindings) (h : name ∉ ds.map Prod.fst) :
    (bs.setAll ds).get? name = bs.get? name := by
  induction ds generalizing bs with
  | nil => rfl
  | cons d ds ih =>
      simp only [List.map_cons, List.mem_cons, not_or] at h
      calc (bs.setAll (d :: ds)).get? name
        _ = (bs.set d.1 d.2).get? name := ih (bs.set d.1 d.2) h.2
        _ = bs.get? name := by rw [get?_set, if_neg (Ne.symm h.1)]

/-- No later definition of the name, so this one counts. -/
theorem get?_setAll_of_last (bs : Bindings) (before : List (String × Value)) (v : Value)
    {after : List (String × Value)} (h : name ∉ after.map Prod.fst) :
    (bs.setAll (before ++ (name, v) :: after)).get? name = some v := by
  calc (bs.setAll (before ++ (name, v) :: after)).get? name
    _ = (((bs.setAll before).set name v).setAll after).get? name := by simp [setAll]
    _ = ((bs.setAll before).set name v).get? name := get?_setAll_of_notMem _ h
    _ = some v := by rw [get?_set, if_pos rfl]

theorem exists_last (h : name ∈ ds.map Prod.fst) :
    ∃ before v after, ds = before ++ (name, v) :: after ∧ name ∉ after.map Prod.fst := by
  induction ds with
  | nil => cases h
  | cons d ds ih =>
      by_cases hm : name ∈ ds.map Prod.fst
      · obtain ⟨before, v, after, rfl, hafter⟩ := ih hm
        exact ⟨d :: before, v, after, rfl, hafter⟩
      · have hd : name = d.1 := by simpa [hm] using h
        exact ⟨[], d.2, ds, by rw [hd]; rfl, hm⟩

theorem get?_setAll_eq_none_iff :
    (setAll [] ds).get? name = none ↔ name ∉ ds.map Prod.fst := by
  constructor
  · intro h hm
    obtain ⟨before, v, after, rfl, hafter⟩ := exists_last hm
    rw [get?_setAll_of_last [] before v hafter] at h
    cases h
  · exact get?_setAll_of_notMem []

theorem get?_setAll_eq_some_iff {v : Value} :
    (setAll [] ds).get? name = some v ↔
      ∃ before after, ds = before ++ (name, v) :: after ∧ name ∉ after.map Prod.fst := by
  constructor
  · intro h
    have hm : name ∈ ds.map Prod.fst := by
      by_contra hm
      rw [get?_setAll_eq_none_iff.mpr hm] at h
      cases h
    obtain ⟨before, w, after, rfl, hafter⟩ := exists_last hm
    rw [get?_setAll_of_last [] before w hafter] at h
    cases h
    exact ⟨before, after, rfl, hafter⟩
  · rintro ⟨before, after, rfl, hafter⟩
    exact get?_setAll_of_last [] before v hafter

/-- Each name once, in the order of the first definitions. -/
theorem names_setAll (ds : List (String × Value)) :
    (setAll [] ds).names = (ds.map Prod.fst).eraseDups := by
  induction ds using List.reverseRecOn with
  | nil => rfl
  | append_singleton ds d ih =>
      rw [setAll_append_singleton, names_set, ih, List.map_append, List.eraseDups_append]
      by_cases hm : d.1 ∈ ds.map Prod.fst <;> simp [hm, List.removeAll, List.eraseDups_cons]

end Bindings

namespace Store

theorem scope_defineAll {i : ScopeId} (st : Store) (ds : List (String × Value))
    (hi : i < st.scopes.size) :
    (st.defineAll i ds).scope i =
      { st.scope i with bindings := (st.scope i).bindings.setAll ds } := by
  induction ds generalizing st with
  | nil => rfl
  | cons d ds ih =>
      rw [defineAll, ih _ (by rwa [size_define]), scope_define, if_pos ⟨rfl, hi⟩]
      rfl

theorem define_comm {i j : ScopeId} (h : i ≠ j) (st : Store) (a b : String) (v w : Value) :
    (st.define i a v).define j b w = (st.define j b w).define i a v := by
  simp only [define, mk.injEq, and_self, and_true]
  apply Array.ext
  · simp
  · intro k _ _
    simp only [Array.getElem_modify]
    by_cases hi : i = k
    · simp [hi, (hi ▸ h : k ≠ j).symm]
    · simp [hi]

end Store

end Sprig
