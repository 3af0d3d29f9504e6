import Mathlib.Data.List.Basic

namespace UserDirectory.Association

variable {κ α : Type} [DecidableEq κ]

theorem lookup_filter_ne (k k' : κ) (l : List (κ × α)) :
    (l.filter fun (j, _) => j ≠ k).lookup k' = if k' = k then none else l.lookup k' := by
  induction l with
  | nil => simp
  | cons e l ih =>
      rcases e with ⟨j, x⟩
      by_cases hj : j = k
      · subst j
        by_cases hk : k' = k
        · simpa [hk] using ih
        · have hne : (k' == k) = false := by simpa using hk
          simpa [hk, List.lookup_cons, hne] using ih
      · by_cases hk : k' = j
        · subst k'
          simp [hj]
        · have hne : (k' == j) = false := by simpa using hk
          simpa [hj, List.lookup_cons, hne] using ih

theorem lookup_cons_filter_ne (k k' : κ) (x : α) (l : List (κ × α)) :
    ((k, x) :: l.filter fun (j, _) => j ≠ k).lookup k' =
      if k' = k then some x else l.lookup k' := by
  by_cases hk : k' = k
  · subst k'
    simp
  · have hne : (k' == k) = false := by simpa using hk
    rw [List.lookup_cons, hne]
    simp only [lookup_filter_ne, if_neg hk]

end UserDirectory.Association
