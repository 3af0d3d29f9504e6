import Mathlib.Data.List.Nodup
import UserDirectory.Proofs.Sql.Migrator
import UserDirectory.Sql.Migrators

namespace UserDirectory.Sql

theorem Change.recorded?_eq_some {c : Change} {name : String} :
    c.recorded? = some name ↔ c = .statement (recordMigration name) := by
  constructor
  · intro h
    unfold Change.recorded? at h
    split at h
    · split at h
      · rename_i hsql
        cases h
        rw [hsql]
        rfl
      · cases h
    · cases h
  · rintro rfl
    simp [Change.recorded?, recordMigration]

namespace Session

variable {lost : Bool} {s : Session} {x : Exchanged} {es : List Exchanged}

/-- The names that a session records or has reserved. -/
def names (s : Session) : List String := s.recorded ++ s.reserved

theorem names_after (lost : Bool) (s : Session) (x : Exchanged) :
    (s.after lost x).names.Sublist s.names ∨
      ∃ c name, x.Succeeds ∧ x.change? = some c ∧ c.recorded? = some name ∧
        (s.after lost x).names = s.names ++ [name] := by
  obtain ⟨progress, committed⟩ := s
  rcases after_cases lost ⟨progress, committed⟩ x with
    h | ⟨p, hp, h⟩ | ⟨c, hx, hc, h⟩ | h <;> rw [h]
  · exact Or.inl (List.Sublist.refl _)
  · refine Or.inl ?_
    simp [names, recorded, reserved, hp]
  · cases hname : c.recorded? with
    | none =>
        have hsame : (change ⟨progress, committed⟩ c).names = names ⟨progress, committed⟩ := by
          cases progress <;> simp [names, recorded, reserved, change, Progress.changes, hname]
        exact Or.inl (hsame ▸ List.Sublist.refl _)
    | some name =>
        cases progress with
        | broken => exact Or.inl (List.Sublist.refl _)
        | idle =>
            refine Or.inr ⟨c, name, hx, hc, hname, ?_⟩
            simp [names, recorded, reserved, change, Progress.changes, hname]
        | inside cs =>
            refine Or.inr ⟨c, name, hx, hc, hname, ?_⟩
            simp [names, recorded, reserved, change, Progress.changes, hname]
  · have hsame : (commit ⟨progress, committed⟩).names = names ⟨progress, committed⟩ := by
      cases progress <;> simp [names, recorded, reserved, commit, Progress.changes]
    exact Or.inl (hsame ▸ List.Sublist.refl _)

end Session

namespace Migrator

open Conversation

variable {n : Nat} {initial : List String} {ms : List Migration} {jobs : Fin n → Job}
  {lost : Fin n → Bool} {ps ps' : Fin n → Party} {i j : Fin n} {name : String}

theorem session_append (p : Party) (rest : Talk (List String)) (x : Exchanged) :
    Party.session { p with rest, past := p.past ++ [x] } = p.session.after p.lost x :=
  Session.afterAll_append _ _ _ _

theorem mem_names : name ∈ (ps i).session.names ↔
    name ∈ (ps i).session.recorded ∨ name ∈ (ps i).session.reserved :=
  List.mem_append

theorem not_mem_names (hrecorded : ¬ IsRecorded initial ps name) (hreserved : ¬ IsReserved ps name)
    (i : Fin n) : name ∉ (ps i).session.names := by
  intro h
  rcases mem_names.mp h with h | h
  · exact hrecorded (Or.inr ⟨i, h⟩)
  · exact hreserved ⟨i, h⟩

/-- No name is recorded or reserved in two places. -/
structure Unique (initial : List String) (ps : Fin n → Party) : Prop where
  nodup : ∀ i, (ps i).session.names.Nodup
  new : ∀ i, ∀ name ∈ (ps i).session.names, name ∉ initial
  apart : ∀ i j, i ≠ j → ∀ name ∈ (ps i).session.names, name ∉ (ps j).session.names

theorem Unique.update {p : Party} (h : Unique initial ps) (hnodup : p.session.names.Nodup)
    (hnames : ∀ name ∈ p.session.names, name ∈ (ps i).session.names ∨
      ¬ IsRecorded initial ps name ∧ ¬ IsReserved ps name) :
    Unique initial (Function.update ps i p) where
  nodup := by
    rw [Function.forall_update_iff ps fun _ q => q.session.names.Nodup]
    exact ⟨hnodup, fun j _ => h.nodup j⟩
  new := by
    rw [Function.forall_update_iff ps fun _ q => ∀ name ∈ q.session.names, name ∉ initial]
    refine ⟨?_, fun j _ => h.new j⟩
    intro name hname
    rcases hnames name hname with hname | ⟨hrecorded, -⟩
    · exact h.new i name hname
    · exact fun hinitial => hrecorded (Or.inl hinitial)
  apart := by
    have hother : ∀ j, j ≠ i → ∀ name ∈ p.session.names, name ∉ (ps j).session.names := by
      intro j hj name hname
      rcases hnames name hname with hname | ⟨hrecorded, hreserved⟩
      · exact h.apart i j hj.symm name hname
      · exact not_mem_names hrecorded hreserved j
    intro j k hjk name hname
    rcases eq_or_ne j i with rfl | hj
    · rw [Function.update_self] at hname
      rw [Function.update_of_ne hjk.symm]
      exact hother k hjk.symm name hname
    · rw [Function.update_of_ne hj] at hname
      rcases eq_or_ne k i with rfl | hk
      · rw [Function.update_self]
        exact fun hname' => hother j hj name hname' hname
      · rw [Function.update_of_ne hk]
        exact h.apart j k hjk name hname

theorem free_of_admits {e : Exchange} {answer : Except Fault e.Result} {c : Change}
    (h : Admits initial ps e answer) (hsucceeds : Exchanged.Succeeds ⟨e, answer⟩)
    (hc : Exchanged.change? ⟨e, answer⟩ = some c) (hname : c.recorded? = some name) :
    ¬ IsRecorded initial ps name ∧ ¬ IsReserved ps name := by
  obtain ⟨result, hanswer⟩ := hsucceeds
  cases Change.recorded?_eq_some.mp hname
  rcases answer with f | result
  · cases hanswer
  · cases e with
    | execute st =>
        cases hc
        exact h name rfl
    | _ => cases hc

theorem Step.unique (h : Step initial ps ps') (hu : Unique initial ps) : Unique initial ps' := by
  cases h with
  | logged i h => exact hu.update (hu.nodup i) fun _ => Or.inl
  | @answered i e next answer h hadmits =>
      have hsession := session_append (ps i) (next answer) ⟨e, answer⟩
      rcases Session.names_after (ps i).lost (ps i).session ⟨e, answer⟩ with
        hsublist | ⟨c, name, hsucceeds, hc, hname, hnames⟩
      · refine hu.update ?_ ?_
        · rw [hsession]
          exact hsublist.nodup (hu.nodup i)
        · rw [hsession]
          exact fun name hname => Or.inl (hsublist.subset hname)
      · -- A name that comes is in no place yet, or its insertion would not have been admitted.
        have hfree := free_of_admits hadmits hsucceeds hc hname
        refine hu.update ?_ ?_
        · have hfirst : name ∉ (ps i).session.names := not_mem_names hfree.1 hfree.2 i
          have hnew : ((ps i).session.names ++ [name]).Nodup := by
            rw [← List.concat_eq_append]
            exact (hu.nodup i).concat hfirst
          rw [hsession]
          exact hnames ▸ hnew
        · rw [hsession]
          intro name' hname'
          rcases List.mem_append.mp (hnames ▸ hname') with hname' | hname'
          · exact Or.inl hname'
          · rw [List.mem_singleton.mp hname']
            exact Or.inr hfree

/-- Whatever a migrator will still exchange, it will have had a conversation of its job. -/
def Follows (ms : List Migration) (jobs : Fin n → Job) (ps : Fin n → Party) : Prop :=
  ∀ i es r, Yields (ps i).rest es r → Yields ((jobs i).talk ms) ((ps i).past ++ es) r

theorem Step.follows (h : Step initial ps ps') (hf : Follows ms jobs ps) : Follows ms jobs ps' := by
  intro j es r hrest
  cases h with
  | logged i h =>
      rcases eq_or_ne j i with rfl | hij
      · rw [Function.update_self] at hrest ⊢
        refine hf j es r ?_
        rw [h]
        exact .log hrest
      · rw [Function.update_of_ne hij] at hrest ⊢
        exact hf j es r hrest
  | @answered i e next answer h hadmits =>
      rcases eq_or_ne j i with rfl | hij
      · rw [Function.update_self] at hrest ⊢
        rw [List.append_assoc]
        refine hf j _ r ?_
        rw [h]
        exact .ask answer hrest
      · rw [Function.update_of_ne hij] at hrest ⊢
        exact hf j es r hrest

/-- What a migrator has been told since all its migrations were recorded. -/
structure Assured (ms : List Migration) (es : List Exchanged) : Prop where
  informed : Informed ms es
  listed : ∀ rows, ⟨.query recordedNames, .ok rows⟩ ∈ es →
    ∃ names, namesOf rows = .ok names ∧ ∀ m ∈ ms, m.name ∈ names

namespace Reaches

theorem trans {ps'' : Fin n → Party} (h : Reaches initial ps ps') (h' : Reaches initial ps' ps'') :
    Reaches initial ps ps'' := by
  induction h' with
  | refl => exact h
  | tail _ hstep ih => exact ih.tail hstep

theorem unique (h : Reaches initial (start ms jobs lost) ps) : Unique initial ps := by
  induction h with
  | refl => exact ⟨fun _ => List.nodup_nil, fun _ _ => nofun, fun _ _ _ _ => nofun⟩
  | tail _ hstep ih => exact hstep.unique ih

theorem follows (h : Reaches initial (start ms jobs lost) ps) : Follows ms jobs ps := by
  induction h with
  | refl => exact fun _ _ _ => id
  | tail _ hstep ih => exact hstep.follows ih

end Reaches

end Migrator

end UserDirectory.Sql
