import UserDirectory.Proofs.Cached.Direct
import UserDirectory.Proofs.Directory.Journal
import UserDirectory.Proofs.Directory.Listing

namespace UserDirectory

/-- The query for a page of the users that match a filter, if pages hold `size` users each and are
numbered from zero. -/
def ListUsersQuery.page (filter : UserPatch) (size number : Nat) : ListUsersQuery where
  limit := some size
  offset := some (number * size)
  filter := filter

theorem ListUsersQuery.isMetBy_toParams (q : ListUsersQuery) (u : User) :
    q.toParams.isMetBy u = q.filter.isMatchedBy u := by
  cases hempty : q.filter.isEmpty with
  | true =>
      have hnil : q.filter.toList = [] := List.isEmpty_iff.mp hempty
      simp [toParams, QueryParams.isMetBy, UserPatch.isMatchedBy, hempty, hnil]
  | false => simp [toParams, QueryParams.isMetBy, hempty]

namespace Directory

variable {mint : Mint} {d d' : Directory} {filter : UserPatch} {size number : Nat}
  {pages : List (List User)}

def matching (d : Directory) (filter : UserPatch) : List User :=
  d.currentUsers.filter filter.isMatchedBy

/-- Whether the id that the next new user gets is greater than those of all users before. -/
def MintsLater (mint : Mint) (d : Directory) : Prop :=
  ∀ i ∈ d.identities, i.id < mint (d.drawn + 1)

instance (mint : Mint) (d : Directory) : Decidable (d.MintsLater mint) :=
  inferInstanceAs (Decidable (∀ i ∈ d.identities, i.id < mint (d.drawn + 1)))

/-- Only new users are created, and each gets a greater id than all before. -/
inductive Grows (mint : Mint) : Directory → Directory → Prop
  | refl (d : Directory) : Grows mint d d
  | create {d d' : Directory} (c : CreateUserCommand) (hlater : d.MintsLater mint)
      (h : Grows mint (d.perform mint c.job).2 d') : Grows mint d d'

/-- The pages of a listing are read one after the other, from the one with a number on, up to the
first that is not full. -/
inductive Pages (mint : Mint) (filter : UserPatch) (size : Nat) :
    (number : Nat) → Directory → List (List User) → Directory → Prop
  | last {number : Nat} {d : Directory} {page : List User}
      (hread : (d.perform mint (ListUsersQuery.page filter size number).job).1 =
        .ok (.users page))
      (hshort : page.length < size) :
      Pages mint filter size number d [page]
        (d.perform mint (ListUsersQuery.page filter size number).job).2
  | more {number : Nat} {d d₁ d' : Directory} {page : List User} {pages : List (List User)}
      (hread : (d.perform mint (ListUsersQuery.page filter size number).job).1 =
        .ok (.users page))
      (hfull : size ≤ page.length)
      (hgrows : Grows mint (d.perform mint (ListUsersQuery.page filter size number).job).2 d₁)
      (hrest : Pages mint filter size (number + 1) d₁ pages d') :
      Pages mint filter size number d (page :: pages) d'

theorem insert_of_forall_lt {i : Identity} {is : List Identity} (h : ∀ j ∈ is, j.id < i.id) :
    insert i is = is ++ [i] := by
  induction is with
  | nil => rfl
  | cons j rest ih =>
      obtain ⟨hj, hrest⟩ := List.forall_mem_cons.mp h
      have hle : ¬ i.id < j.id := Nat.lt_asymm hj
      have hne : i.id ≠ j.id := by
        intro he
        rw [he] at hj
        exact Nat.lt_irrefl _ hj
      rw [insert, if_neg hle, if_neg hne, ih hrest]
      rfl

theorem currentUsers_create (h : d.MintsLater mint) (c : CreateUserCommand) :
    ∃ u, (d.perform mint c.job).2.currentUsers = d.currentUsers ++ [u] := by
  let u : User :=
    { c.toUser with id := mint (d.drawn + 1), versionId := mint d.drawn, isLatestVersion := true }
  have hothers : ∀ i ∈ d.identities, ¬ i.id = u.id := by
    intro i hi he
    have hlt := h i hi
    rw [he] at hlt
    exact Nat.lt_irrefl _ hlt
  have hinserted : insert { id := u.id } d.identities = d.identities ++ [{ id := u.id }] :=
    insert_of_forall_lt h
  have hsaved : (d.perform mint c.job).2.identities = d.identities ++ [⟨u.id, false, [u]⟩] := by
    have hsave : (d.perform mint c.job).2 = ((d.count (.save c.toUser)).save mint c.toUser).2 := by
      rw [CreateUserCommand.job, perform_request]
      rfl
    rw [hsave, save_of_isNil mint _ (by rfl)]
    show update u.id (append u) (insert { id := u.id } d.identities) = _
    rw [hinserted, update, List.map_append]
    congr 1
    · refine (List.map_congr_left ?_).trans (List.map_id _)
      intro i hi
      exact if_neg (hothers i hi)
    · simp [append]
  refine ⟨u, ?_⟩
  rw [currentUsers, hsaved, List.filterMap_append]
  rfl

theorem matching_create (h : d.MintsLater mint) (c : CreateUserCommand) (filter : UserPatch) :
    d.matching filter <+: (d.perform mint c.job).2.matching filter := by
  obtain ⟨u, hu⟩ := currentUsers_create h c
  rw [matching, matching, hu, List.filter_append]
  exact List.prefix_append _ _

theorem Ordered.perform (h : d.Ordered) (mint : Mint) (j : Job) : (d.perform mint j).2.Ordered := by
  cases j with
  | request q =>
      rw [perform_request]
      exact h.serve mint q
  | amend id patch =>
      have hcount : (d.count (.get id)).Ordered := h.of_identities rfl
      rw [perform_amend]
      cases d.view id with
      | none => exact hcount
      | some u => exact hcount.serve mint _

theorem Grows.ordered (h : d.Grows mint d') (hd : d.Ordered) : d'.Ordered := by
  induction h with
  | refl => exact hd
  | create c _ _ ih => exact ih (hd.perform mint c.job)

theorem Grows.extends_matching (h : d.Grows mint d') (filter : UserPatch) :
    d.matching filter <+: d'.matching filter := by
  induction h with
  | refl => exact List.prefix_rfl
  | create c hlater _ ih => exact (matching_create hlater c filter).trans ih

theorem perform_page (mint : Mint) (d : Directory) (filter : UserPatch) (number : Nat)
    (hpos : 1 ≤ size) (hmax : size ≤ 1000) :
    (d.perform mint (ListUsersQuery.page filter size number).job).1 =
      .ok (.users (((d.matching filter).drop (number * size)).take size)) := by
  have hsize : pageSize size = size := by
    rw [pageSize_eq_effectiveLimit, effectiveLimit, if_neg (Nat.ne_of_gt hpos), maxLimit,
      Nat.min_eq_left hmax]
  have hmatching : d.currentUsers.filter (ListUsersQuery.page filter size number).toParams.isMetBy =
      d.matching filter :=
    List.filter_congr fun u _ => ListUsersQuery.isMetBy_toParams _ u
  have hpage : (d.perform mint (ListUsersQuery.page filter size number).job).1 =
      .ok (.users (d.query (ListUsersQuery.page filter size number).toParams)) := by
    rw [ListUsersQuery.job, perform_request]
    rfl
  rw [hpage, query, hmatching]
  show Except.ok (StoreAnswer.users (List.take (pageSize size) _)) = _
  rw [hsize]
  rfl

theorem matching_page (mint : Mint) (d : Directory) (q : ListUsersQuery) (filter : UserPatch) :
    (d.perform mint q.job).2.matching filter = d.matching filter := by
  rw [ListUsersQuery.job, perform_request]
  rfl

theorem length_of_full_page (hpos : 1 ≤ size)
    (hfull : size ≤ (((d.matching filter).drop (number * size)).take size).length) :
    (number + 1) * size ≤ (d.matching filter).length := by
  rw [List.length_take, List.length_drop] at hfull
  rw [Nat.succ_mul]
  omega

/-- The pages complete what was read before them. -/
theorem Pages.take_append (h : Pages mint filter size number d pages d') (hpos : 1 ≤ size)
    (hmax : size ≤ 1000) :
    (d.matching filter).take (number * size) ++ pages.flatten = d'.matching filter := by
  induction h with
  | @last number d page hread hshort =>
      cases (perform_page mint d filter number hpos hmax).symm.trans hread
      have hend : ((d.matching filter).drop (number * size)).length ≤ size := by
        rw [List.length_take] at hshort
        omega
      rw [matching_page, List.flatten_singleton, List.take_of_length_le hend,
        List.take_append_drop]
  | @more number d d₁ d' page pages hread hfull hgrows hrest ih =>
      cases (perform_page mint d filter number hpos hmax).symm.trans hread
      have hlength := length_of_full_page hpos hfull
      -- what has been read up to this page is still the beginning of the listing
      have htaken : (d₁.matching filter).take ((number + 1) * size) =
          (d.matching filter).take (number * size) ++
            ((d.matching filter).drop (number * size)).take size := by
        obtain ⟨later, hlater⟩ := hgrows.extends_matching filter
        rw [← hlater, matching_page, List.take_append_of_le_length hlength, Nat.succ_mul,
          List.take_add]
      rw [← ih, htaken, List.flatten_cons, List.append_assoc]

theorem Pages.ordered (h : Pages mint filter size number d pages d') (hd : d.Ordered) :
    d'.Ordered := by
  induction h with
  | last => exact hd.perform mint _
  | more _ _ hgrows _ ih => exact ih (hgrows.ordered (hd.perform mint _))

/-- What the pages of a listing hold, if only new users were created while they were read. The last
page was read from `d'`. -/
structure ListsAll (filter : UserPatch) (pages : List (List User)) (d' : Directory) : Prop where
  ascending : pages.flatten.Pairwise (·.id < ·.id)
  nodup : (pages.flatten.map (·.id)).Nodup
  complete : pages.flatten = d'.currentUsers.filter filter.isMatchedBy

theorem lists_all (hd : d.Reachable mint) (hpos : 1 ≤ size) (hmax : size ≤ 1000)
    (h : Pages mint filter size 0 d pages d') : ListsAll filter pages d' := by
  have hcomplete : pages.flatten = d'.matching filter := by
    have htaken := h.take_append hpos hmax
    rwa [Nat.zero_mul, List.take_zero, List.nil_append] at htaken
  have hascending : (d'.matching filter).Pairwise (·.id < ·.id) :=
    (h.ordered hd.ordered).pairwise_currentUsers.filter _
  refine ⟨hcomplete ▸ hascending, ?_, hcomplete⟩
  rw [hcomplete, List.Nodup, List.pairwise_map]
  refine hascending.imp ?_
  intro u v hlt he
  rw [he] at hlt
  exact Nat.lt_irrefl _ hlt

/-- A user is created when the first page was read; an administrator is not listed. -/
theorem lists_all_of_user_created_between_pages :
    let mint : Mint := fun n => .ofNat (n + 1)
    let d := serveAll mint {}
      [.save { firstName := "Ada" }, .save { firstName := "Bo", isAdmin := true },
        .save { firstName := "Cy" }]
    let filter : UserPatch := { isAdmin := .present false }
    ∃ pages d', d.Reachable mint ∧ 1 ≤ 2 ∧ 2 ≤ 1000 ∧ Pages mint filter 2 0 d pages d' ∧
      pages.map (·.map (·.firstName)) = [["Ada", "Cy"], ["Di"]] ∧ ListsAll filter pages d' := by
  intro mint d filter
  have hreachable : d.Reachable mint := reachable_serveAll mint _
  let c : CreateUserCommand :=
    { firstName := "Di", lastName := "", email := "", passwordHash := "" }
  have hlater : (d.perform mint (ListUsersQuery.page filter 2 0).job).2.MintsLater mint := by
    rw [ListUsersQuery.job, perform_request]
    decide +kernel
  have hpages := Pages.more (perform_page mint d filter 0 (by decide)
    (by decide : 2 ≤ 1000)) (by decide +kernel) (.create c hlater (.refl _))
    (.last (perform_page mint _ filter 1 (by decide) (by decide)) (by
      rw [CreateUserCommand.job, perform_request, ListUsersQuery.job, perform_request]
      decide +kernel))
  refine ⟨_, _, hreachable, by decide, by decide, hpages, ?_,
    lists_all hreachable (by decide) (by decide) hpages⟩
  rw [CreateUserCommand.job, perform_request, ListUsersQuery.job, perform_request]
  decide +kernel

end Directory

end UserDirectory
