import Mathlib.Data.List.Basic
import UserDirectory.Proofs.Directory.Journal
import UserDirectory.Proofs.Directory.Listing

namespace UserDirectory

def UserPatch.firstPage (conditions : UserPatch) (limit : Nat) : QueryParams :=
  (QueryParams.filtered conditions).withPagination 0 limit

theorem UserPatch.isMetBy_firstPage_id (id : Uuid) (limit : Nat) (u : User) :
    (UserPatch.firstPage { id := .present id } limit).isMetBy u = decide (u.id = id) := by
  simp [firstPage, QueryParams.filtered, QueryParams.withPagination, QueryParams.isMetBy_eq,
    toList, value?, Optional.toOption, User.column]

theorem UserPatch.isMetBy_firstPage_email (email : String) (limit : Nat) (u : User) :
    (UserPatch.firstPage { email := .present email } limit).isMetBy u =
      decide (u.email = email) := by
  simp [firstPage, QueryParams.filtered, QueryParams.withPagination, QueryParams.isMetBy_eq,
    toList, value?, Optional.toOption, User.column]

namespace Directory

variable {mint : Mint} {d : Directory} {id : Uuid} {u w : User} {email : String}

theorem pageSize_ne_zero (limit : Nat) : pageSize limit ≠ 0 := by
  cases limit with
  | zero => decide
  | succ limit =>
      simp only [pageSize]
      omega

theorem head?_query_firstPage (d : Directory) (conditions : UserPatch) (limit : Nat) :
    (d.query (conditions.firstPage limit)).head? =
      d.currentUsers.find? (conditions.firstPage limit).isMetBy := by
  have hpage : d.query (conditions.firstPage limit) =
      (d.currentUsers.filter (conditions.firstPage limit).isMetBy).take (pageSize limit) := rfl
  rw [hpage, List.head?_take, if_neg (pageSize_ne_zero limit), List.head?_filter]

theorem query_sublist (d : Directory) (p : QueryParams) :
    (d.query p).Sublist d.currentUsers :=
  (List.take_sublist _ _).trans ((List.drop_sublist _ _).trans List.filter_sublist)

theorem Ordered.nodup_query (h : d.Ordered) (p : QueryParams) :
    ((d.query p).map (·.id)).Nodup := by
  rw [List.Nodup, List.pairwise_map]
  refine (h.pairwise_currentUsers.sublist (d.query_sublist p)).imp ?_
  intro a b hlt he
  rw [he] at hlt
  exact Nat.lt_irrefl _ hlt

theorem Sound.find?_currentUsers_id (h : d.Sound mint) (id : Uuid) :
    d.currentUsers.find? (fun u => decide (u.id = id)) = d.view id := by
  rcases hv : d.view id with _ | u
  · rw [List.find?_eq_none]
    intro v hv' hid
    rw [decide_eq_true_eq] at hid
    have hview := h.mem_currentUsers_iff.mp hv'
    rw [hid, hv] at hview
    cases hview
  · have hid := h.id_of_view hv
    have hmem : u ∈ d.currentUsers := h.mem_currentUsers_iff.mpr (hid.symm ▸ hv)
    rcases hf : d.currentUsers.find? (fun v => decide (v.id = id)) with _ | v
    · have hnone := List.find?_eq_none.mp hf u hmem
      exact absurd (decide_eq_true hid) hnone
    · have hvid : v.id = id := by simpa using List.find?_some hf
      have hview := h.mem_currentUsers_iff.mp (List.mem_of_find?_eq_some hf)
      rw [hvid, hv] at hview
      rw [hf, hview]

theorem get_eq_ok_iff : d.get id = .ok u ↔ d.view id = some u := by
  rw [get, ← view]
  cases d.view id with
  | none => simp
  | some v => simp

theorem get_eq_error_iff : d.get id = .error (.notFound id) ↔ d.view id = none := by
  rw [get, ← view]
  cases d.view id with
  | none => simp
  | some v => simp

theorem Sound.query_id (h : d.Sound mint) (id : Uuid) (limit : Nat) :
    d.query (UserPatch.firstPage { id := .present id } limit) = (d.view id).toList := by
  have hhead := d.head?_query_firstPage { id := .present id } limit
  have hmet : (UserPatch.firstPage { id := .present id } limit).isMetBy =
      fun u => decide (u.id = id) :=
    funext (UserPatch.isMetBy_firstPage_id id limit)
  rw [hmet, h.find?_currentUsers_id] at hhead
  rcases hq : d.query (UserPatch.firstPage { id := .present id } limit) with _ | ⟨u, rest⟩
  · rw [hq, List.head?_nil] at hhead
    rw [← hhead]
    rfl
  · rw [hq, List.head?_cons] at hhead
    -- All users of the page have the id, so there is but one.
    have hall : ∀ v ∈ u :: rest, v.id = id := by
      intro v hv
      rw [← hq] at hv
      have hfiltered := List.mem_of_mem_drop (List.mem_of_mem_take hv)
      rw [List.mem_filter, hmet, decide_eq_true_eq] at hfiltered
      exact hfiltered.2
    have hsorted := h.pairwise_currentUsers.sublist
      (d.query_sublist (UserPatch.firstPage { id := .present id } limit))
    rw [hq, List.pairwise_cons] at hsorted
    rw [← hhead]
    cases rest with
    | nil => rfl
    | cons v rest =>
        have hlt := hsorted.1 v List.mem_cons_self
        rw [hall u List.mem_cons_self, hall v (by simp)] at hlt
        exact absurd hlt (Nat.lt_irrefl _)

theorem getByEmail_eq (d : Directory) (email : String) (limit : Nat) :
    d.getByEmail email =
      match (d.query (UserPatch.firstPage { email := .present email } limit)).head? with
      | some u => .ok u
      | none => .error (.emailNotFound email) := by
  have hmet : (UserPatch.firstPage { email := .present email } limit).isMetBy =
      fun u => decide (u.email = email) :=
    funext (UserPatch.isMetBy_firstPage_email email limit)
  rw [head?_query_firstPage, hmet]
  rfl

theorem Sound.getByEmail_eq_ok_iff (h : d.Sound mint) :
    d.getByEmail email = .ok u ↔ d.IsFirst email u := by
  rw [← h.serve_getByEmail_iff]
  have hreply : (d.serve mint (.getByEmail email)).1 = (d.getByEmail email).map .user := rfl
  rw [hreply]
  cases d.getByEmail email with
  | error e => simp [Except.map]
  | ok v => simp [Except.map]

theorem Sound.mem_history_of_getVersion (h : d.Sound mint) {versionId : Uuid}
    (hw : d.getVersion versionId = .ok w) :
    ∃ id, ∃ v ∈ d.history id, v.versionId = versionId := by
  rw [getVersion] at hw
  split at hw
  · rename_i x hx
    obtain ⟨i, hi, hfound⟩ := List.exists_of_findSome?_eq_some hx
    obtain ⟨v, hv, hversion⟩ := mem_of_version? hfound
    rw [h.versions_of_mem hi] at hv
    exact ⟨i.id, v, hv, hversion⟩
  · cases hw

theorem Reachable.getLast?_of_getVersion (h : d.Reachable mint) (hm : mint.Fresh d.drawn)
    {versionId : Uuid} (hw : d.getVersion versionId = .ok w) (hlatest : w.isLatestVersion = true) :
    (d.history w.id).getLast? = some w := by
  have hsound := h.sound hm
  obtain ⟨id, v, hv, rfl⟩ := hsound.mem_history_of_getVersion hw
  rw [h.getVersion_of_mem hm hv] at hw
  cases hw
  have hlast : (d.history id).getLast? = some v := of_decide_eq_true hlatest
  have hmarked : v.isLatestVersion = true := h.isLatestVersion hm hv
  have hid : v.id = id := hsound.id_of_mem_history hv
  have hsame : { v with isLatestVersion := decide ((d.history id).getLast? = some v) } = v := by
    rw [decide_eq_true hlast, ← hmarked]
  rw [hsame, hid, hlast]

/-- The reads of a directory tell the same. -/
structure ReadsAgree (d : Directory) : Prop where
  get : ∀ {id u} limit,
    d.get id = .ok u ↔ d.query (UserPatch.firstPage { id := .present id } limit) = [u]
  get_notFound : ∀ {id} limit,
    d.get id = .error (.notFound id) ↔
      d.query (UserPatch.firstPage { id := .present id } limit) = []
  getByEmail : ∀ {email u} limit,
    d.getByEmail email = .ok u ↔
      (d.query (UserPatch.firstPage { email := .present email } limit)).head? = some u
  getByEmail_least : ∀ {email u}, d.getByEmail email = .ok u ↔ d.IsFirst email u
  getByEmail_notFound : ∀ {email} limit,
    d.getByEmail email = .error (.emailNotFound email) ↔
      d.query (UserPatch.firstPage { email := .present email } limit) = []
  getVersion : ∀ {id u}, d.get id = .ok u → d.getVersion u.versionId = .ok u
  getVersion_latest : ∀ {versionId w}, d.getVersion versionId = .ok w →
    w.isLatestVersion = true →
      d.get w.id = .ok w ∨ d.get w.id = .error (.notFound w.id) ∧ d.IsDeleted w.id
  query : ∀ p, ∀ u ∈ d.query p,
    d.get u.id = .ok u ∧ ¬ d.IsDeleted u.id ∧ u.isLatestVersion = true
  query_nodup : ∀ p, ((d.query p).map (·.id)).Nodup

theorem reads_agree (h : d.Reachable mint) (hm : mint.Fresh d.drawn) : d.ReadsAgree := by
  have hsound := h.sound hm
  refine ⟨?_, ?_, ?_, hsound.getByEmail_eq_ok_iff, ?_, ?_, ?_, ?_, h.ordered.nodup_query⟩
  · intro id u limit
    rw [get_eq_ok_iff, hsound.query_id]
    cases d.view id <;> simp
  · intro id limit
    rw [get_eq_error_iff, hsound.query_id]
    cases d.view id <;> simp
  · intro email u limit
    rw [d.getByEmail_eq email limit]
    cases (d.query (UserPatch.firstPage { email := .present email } limit)).head? <;> simp
  · intro email limit
    rw [d.getByEmail_eq email limit, ← List.head?_eq_none_iff]
    cases (d.query (UserPatch.firstPage { email := .present email } limit)).head? <;> simp
  · intro id u hu
    have hview := get_eq_ok_iff.mp hu
    have hmem := mem_history_of_view hview
    have hmarked := h.isLatestVersion hm hmem
    rw [h.getVersion_of_mem hm hmem, getLast?_history_of_view hview, decide_eq_true rfl,
      ← hmarked]
  · intro versionId w hw hlatest
    have hlast := h.getLast?_of_getVersion hm hw hlatest
    by_cases hdeleted : d.IsDeleted w.id
    · exact Or.inr ⟨get_eq_error_iff.mpr hdeleted.view_eq_none, hdeleted⟩
    · exact Or.inl (get_eq_ok_iff.mpr ((view_of_live hdeleted).trans hlast))
  · intro p u hu
    have hmem := (d.query_sublist p).subset hu
    have hview := hsound.mem_currentUsers_iff.mp hmem
    refine ⟨get_eq_ok_iff.mpr hview, ?_, h.ordered.isLatestVersion hmem⟩
    intro hdeleted
    rw [hdeleted.view_eq_none] at hview
    cases hview

/-- Of three users with one email the first is deleted, and the second has two versions. -/
theorem reads_agree_of_shared_email :
    let mint : Mint := fun n => .ofNat (n + 1)
    let u : User := { email := "a@b" }
    let v : User :=
      { u with id := mint 3, versionId := mint 6, isLatestVersion := true, firstName := "Ada" }
    let d := serveAll mint {}
      [.save u, .save u, .save u, .save { v with versionId := .nil }, .delete (mint 1)]
    d.Reachable mint ∧ mint.Fresh d.drawn ∧ d.getByEmail "a@b" = .ok v ∧
      (d.getVersion (mint 2)).map (·.isLatestVersion) = .ok false ∧ d.ReadsAgree := by
  intro mint u v d
  have hreach : d.Reachable mint := reachable_serveAll mint _
  have hm : mint.Fresh d.drawn := by decide +kernel
  exact ⟨hreach, hm, by decide +kernel, by decide +kernel, reads_agree hreach hm⟩

end Directory

end UserDirectory
