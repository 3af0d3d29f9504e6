import UserDirectory.User.Patch

namespace UserDirectory

/-- What is given, or else what the other one is. -/
def Optional.or {α : Type} : Optional α → Optional α → Optional α
  | .present a, _ => .present a
  | .absent, o => o

theorem Optional.getD_or {α : Type} (o o' : Optional α) (a : α) :
    (o.or o').getD a = o.getD (o'.getD a) := by
  cases o <;> rfl

def Column.all : List Column :=
  [.id, .versionId, .firstName, .lastName, .email, .phone, .isAdmin, .passwordHash]

theorem Column.mem_all (c : Column) : c ∈ all := by
  cases c <;> decide

def contentColumns : List Column :=
  [.firstName, .lastName, .email, .phone, .isAdmin, .passwordHash]

namespace UserPatch

variable {p q : UserPatch} {c : Column} {v : FieldValue}

/-- The fields that one patch lists, and those that else another one lists. -/
def atop (q p : UserPatch) : UserPatch where
  id := q.id.or p.id
  versionId := q.versionId.or p.versionId
  firstName := q.firstName.or p.firstName
  lastName := q.lastName.or p.lastName
  email := q.email.or p.email
  phone := q.phone.or p.phone
  isAdmin := q.isAdmin.or p.isAdmin
  passwordHash := q.passwordHash.or p.passwordHash

theorem atop_self (p : UserPatch) : p.atop p = p := by
  have hself {α : Type} (o : Optional α) : o.or o = o := by
    cases o <;> rfl
  simp only [atop, hself]

theorem toList_eq (p : UserPatch) :
    p.toList = Column.all.filterMap fun c => (p.value? c).map (c, ·) :=
  rfl

theorem mem_toList_iff : (c, v) ∈ p.toList ↔ p.value? c = some v := by
  rw [toList_eq, List.mem_filterMap]
  constructor
  · rintro ⟨c', -, h⟩
    obtain ⟨v', hv', he⟩ := Option.map_eq_some_iff.mp h
    cases he
    exact hv'
  · intro h
    exact ⟨c, c.mem_all, by rw [h, Option.map_some]⟩

theorem map_fst_toList (p : UserPatch) :
    p.toList.map (·.1) = Column.all.filter fun c => (p.value? c).isSome := by
  rw [toList_eq, List.map_filterMap, ← List.filterMap_eq_filter]
  congr 1
  funext c
  cases h : p.value? c <;> simp [Option.guard, h]

end UserPatch

namespace User

variable {p q : UserPatch} {c : Column}

/-- The version of a user that a patch makes, with a certain id. -/
def patched (u : User) (p : UserPatch) (versionId : Uuid) : User :=
  { u.apply p with versionId, isLatestVersion := true }

theorem column_apply (hc : c ∈ contentColumns) (u : User) (p : UserPatch) :
    (u.apply p).column c = (p.value? c).getD (u.column c) := by
  have hfield {α : Type} (o : Optional α) (f : α → FieldValue) (a : α) :
      f (o.getD a) = (o.toOption.map f).getD (f a) := by
    cases o <;> rfl
  cases c with
  | id => simp [contentColumns] at hc
  | versionId => simp [contentColumns] at hc
  | _ => exact hfield _ _ _

theorem column_patched (hc : c ∈ contentColumns) (u : User) (p : UserPatch) (versionId : Uuid) :
    (u.patched p versionId).column c = (p.value? c).getD (u.column c) := by
  rw [← column_apply hc]
  cases c with
  | versionId => simp [contentColumns] at hc
  | _ => rfl

/-- Two patches one after the other are one patch. -/
theorem patched_patched (u : User) (p q : UserPatch) (versionId versionId' : Uuid) :
    (u.patched p versionId).patched q versionId' = u.patched (q.atop p) versionId' := by
  simp only [patched, apply, UserPatch.atop, Optional.getD_or]

theorem isMatchedBy_patched (hid : p.id = .absent) (hversionId : p.versionId = .absent) (u : User)
    (versionId : Uuid) : p.isMatchedBy (u.patched p versionId) = true := by
  rw [UserPatch.isMatchedBy, List.all_eq_true]
  rintro ⟨c, v⟩ hcv
  have hv := UserPatch.mem_toList_iff.mp hcv
  have hc : c ∈ contentColumns := by
    cases c with
    | id => simp [UserPatch.value?, hid, Optional.toOption] at hv
    | versionId => simp [UserPatch.value?, hversionId, Optional.toOption] at hv
    | _ => simp [contentColumns]
  rw [decide_eq_true_eq, valueNamed?_name, column_patched hc, hv, Option.getD_some]

end User

end UserDirectory
