import UserDirectory.Proofs.Sql.Migrators

namespace UserDirectory.Sql.Migrator

open Conversation

variable {n : Nat} {initial : List String} {ms kept : List Migration} {jobs : Fin n → Job}
  {job : Job} {lost : Fin n → Bool} {ps : Fin n → Party} {i j : Fin n} {m : Migration}
  {es : List Exchanged} {p : Party} {r : Except (Failure MigrationError) (List String)}
  {g : Failure MigrationError}

theorem recorded_changes (ms : List Migration) :
    (ms.map Migration.changes).flatten.filterMap Change.recorded? = ms.map (·.name) := by
  induction ms with
  | nil => rfl
  | cons m ms ih =>
      have hname : Change.recorded? (.statement (recordMigration m.name)) = some m.name :=
        Change.recorded?_eq_some.mpr rfl
      have htext : Change.recorded? (.text m.sql) = none := rfl
      rw [List.map_cons, List.flatten_cons, List.filterMap_append, ih, Migration.changes]
      simp [hname, htext]

theorem Leaves.recorded {lost : Bool} (h : Leaves ms lost es kept) :
    (Session.afterAll lost {} es).recorded = kept.map (·.name) := by
  rw [Session.recorded]
  rcases h.committed with ⟨rfl, hcommitted⟩ | hcommitted
  · rw [hcommitted]
    rfl
  · have htext : Change.recorded? (.text createMigrationTable) = none := rfl
    rw [hcommitted, List.flatten_cons, List.filterMap_append, recorded_changes]
    simp [htext]

theorem Assured.append (h : Assured ms es) {es' : List Exchanged} (hes' : ∀ x ∈ es', x.Fails) :
    Assured ms (es ++ es') := by
  have hmem : ∀ (st : Statement) (rows : List Row),
      (⟨.query st, .ok rows⟩ : Exchanged) ∈ es ++ es' → ⟨.query st, .ok rows⟩ ∈ es := by
    intro st rows hmem
    rcases List.mem_append.mp hmem with hmem | hmem
    · exact hmem
    · obtain ⟨f, hf⟩ := hes' _ hmem
      cases hf
  exact ⟨fun m hm rows h' => h.informed m hm rows (hmem _ _ h'),
    fun rows h' => h.listed rows (hmem _ _ h')⟩

end UserDirectory.Sql.Migrator
