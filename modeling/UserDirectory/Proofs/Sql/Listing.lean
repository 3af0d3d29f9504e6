import Mathlib.Data.List.Basic
import UserDirectory.Proofs.Directory.Journal
import UserDirectory.Proofs.Directory.Listing
import UserDirectory.Proofs.Sql.Selection
import UserDirectory.Proofs.Sql.Transcript
import UserDirectory.Proofs.User.Patch
import UserDirectory.Query
import UserDirectory.Sql.StoredRows
import UserDirectory.Sql.UserStore

namespace UserDirectory.Sql

variable {mint : Mint} {d : Directory} {users : List User} {u : User}

theorem Datum.ofField_injective : Function.Injective Datum.ofField := by
  intro a b h
  cases a <;> cases b <;> cases h <;> rfl

theorem value?_currentRow (users : List User) (u : User) (c : Column) :
    (currentTable users).value? c.name (currentRow u) = some (.ofField (u.column c)) := by
  cases c <;> rfl

theorem lookup_currentTable {p : UserPatch} {c : Column} {v : FieldValue} (users : List User)
    (h : p.value? c = some v) :
    (currentTable users).columns.lookup c.name = some (Datum.ofField v).type := by
  cases c <;> obtain ⟨_, -, rfl⟩ := Option.map_eq_some_iff.mp h <;> rfl

theorem mayPrecede_currentRow (users : List User) (u v : User) :
    (currentTable users).mayPrecede "id" (currentRow u) (currentRow v) = decide (u.id ≤ v.id) :=
  rfl

theorem userOfRow?_currentRow (h : u.isLatestVersion = true) :
    userOfRow? (currentRow u) = some u := by
  obtain ⟨⟩ := u
  cases h
  rfl

theorem mapM_userOfRow? (h : ∀ u ∈ users, u.isLatestVersion = true) :
    (users.map currentRow).mapM userOfRow? = some users := by
  induction users with
  | nil => rfl
  | cons u users ih =>
      have hfirst := userOfRow?_currentRow (h u List.mem_cons_self)
      have hrest := ih fun v hv => h v (List.mem_cons_of_mem u hv)
      rw [List.map_cons, List.mapM_cons, hfirst, hrest]
      rfl

theorem not_blank_mem_name (c : Column) : ' ' ∉ c.name.toList := by
  cases c <;> decide

theorem natural?_ofNat {n : Nat} (h : n < 0x8000000000000000) :
    (Datum.int (Int.ofNat n)).natural? = some n := by
  rw [Datum.natural?, if_pos ⟨Int.natCast_nonneg n, Int.ofNat_lt.mpr h⟩]
  rfl

theorem effectiveLimit_le (limit : Nat) : effectiveLimit limit ≤ 1000 := by
  rw [effectiveLimit]
  split
  · decide
  · exact Nat.min_le_right _ _

def filtersOf (p : QueryParams) : List (String × Datum) :=
  (p.conditions.getD {}).toList.map fun (c, v) => (c.name, .ofField v)

theorem filters_listing (p : QueryParams) : (listing p).filters = filtersOf p := rfl

theorem limit_listing (p : QueryParams) :
    (listing p).limit = Int.ofNat (Directory.pageSize p.pagination.limit) := by
  have hle : effectiveLimit p.pagination.limit ≤ 0x7fffffffffffffff :=
    Nat.le_trans (effectiveLimit_le _) (by decide)
  show bigint (effectiveLimit p.pagination.limit) = _
  rw [bigint, Nat.min_eq_left hle, pageSize_eq_effectiveLimit]

theorem offset_listing (p : QueryParams) :
    (listing p).offset = Int.ofNat (min p.pagination.offset 0x7fffffffffffffff) := by
  show bigint (min p.pagination.offset 0x7fffffffffffffff) = _
  rw [bigint, Nat.min_eq_left (Nat.min_le_right _ _)]

theorem filter_currentRow (p : QueryParams) (users listed : List User) :
    ((listed.map currentRow).filter fun row =>
      (filtersOf p).all fun f => (currentTable users).value? f.1 row = some f.2) =
      (listed.filter p.isMetBy).map currentRow := by
  rw [List.filter_map]
  congr 1
  refine List.filter_congr ?_
  intro u _
  rw [p.isMetBy_eq, filtersOf, Function.comp, List.all_map]
  congr 1
  funext ⟨c, v⟩
  simp [value?_currentRow, Datum.ofField_injective.eq_iff]

theorem mergeSort_currentRow (users listed : List User) :
    (listed.map currentRow).mergeSort ((currentTable users).mayPrecede "id") =
      (listed.mergeSort fun u v => u.id ≤ v.id).map currentRow := by
  refine (List.map_mergeSort ?_).symm
  intro u _ v _
  exact (mayPrecede_currentRow users u v).symm

theorem mergeSort_eq_of_perm {listed : List User} (hperm : users.Perm listed)
    (hsorted : listed.Pairwise (·.id < ·.id)) :
    (users.mergeSort fun u v => u.id ≤ v.id) = listed := by
  have hmerged : (users.mergeSort fun u v => u.id ≤ v.id).Pairwise (·.id ≤ ·.id) := by
    have htrans : ∀ a b c : User, decide (a.id ≤ b.id) = true → decide (b.id ≤ c.id) = true →
        decide (a.id ≤ c.id) = true := by
      intro a b c hab hbc
      rw [decide_eq_true_eq] at hab hbc ⊢
      exact Nat.le_trans hab hbc
    have htotal : ∀ a b : User, (decide (a.id ≤ b.id) || decide (b.id ≤ a.id)) = true := by
      intro a b
      rw [Bool.or_eq_true, decide_eq_true_eq, decide_eq_true_eq]
      exact Nat.le_total a.id.toNat b.id.toNat
    exact (List.pairwise_mergeSort htrans htotal users).imp of_decide_eq_true
  have hascending : listed.Pairwise (·.id ≤ ·.id) := hsorted.imp fun h => Nat.le_of_lt h
  have hnodup : (listed.map (·.id)).Nodup := by
    rw [List.Nodup, List.pairwise_map]
    refine hsorted.imp ?_
    intro u v hlt he
    rw [he] at hlt
    exact Nat.lt_irrefl _ hlt
  have hmerge : (users.mergeSort fun u v => decide (u.id ≤ v.id)).Perm listed :=
    (List.mergeSort_perm users _).trans hperm
  refine hmerge.eq_of_pairwise ?_ hmerged hascending
  intro u v hu hv huv hvu
  exact List.inj_on_of_nodup_map hnodup (hmerge.mem_iff.mp hu) hv
    (Uuid.ext_toNat (Nat.le_antisymm huv hvu))

/-- The rows of a listing, if the table holds the current users in any order. -/
theorem rows?_listing (h : d.Ordered) (hperm : users.Perm d.currentUsers) (p : QueryParams) :
    (currentTable users).rows? currentUserTable (listing p).build =
      some ((((d.currentUsers.filter p.isMetBy).drop
        (min p.pagination.offset 0x7fffffffffffffff)).take
          (Directory.pageSize p.pagination.limit)).map currentRow) := by
  have hfilters : ∀ f ∈ (listing p).filters, ' ' ∉ f.1.toList := by
    intro f hf
    obtain ⟨⟨c, v⟩, -, rfl⟩ := List.mem_map.mp hf
    exact not_blank_mem_name c
  have hknown : ∀ f ∈ (listing p).filters,
      (currentTable users).columns.lookup f.1 = some f.2.type := by
    intro f hf
    obtain ⟨⟨c, v⟩, hcv, rfl⟩ := List.mem_map.mp hf
    exact lookup_currentTable users (UserPatch.mem_toList_iff.mp hcv)
  have hlimit : (Datum.int (listing p).limit).natural? =
      some (Directory.pageSize p.pagination.limit) := by
    rw [limit_listing]
    refine natural?_ofNat (Nat.lt_of_le_of_lt ?_ (by decide : 1000 < _))
    rw [pageSize_eq_effectiveLimit]
    exact effectiveLimit_le _
  have hoffset : (Datum.int (listing p).offset).natural? =
      some (min p.pagination.offset 0x7fffffffffffffff) := by
    rw [offset_listing]
    exact natural?_ofNat (Nat.lt_of_le_of_lt (Nat.min_le_right _ _) (by decide))
  have horder : (listing p).orderBy = "ORDER BY " ++ "id" := rfl
  have hsorted : (d.currentUsers.filter p.isMetBy).Pairwise (·.id < ·.id) :=
    h.pairwise_currentUsers.filter _
  have hrows := Table.rows?_build horder (by decide) hfilters hknown rfl hlimit hoffset
  have hstored : (currentTable users).rows = users.map currentRow := rfl
  rw [hstored, filters_listing, filter_currentRow, mergeSort_currentRow,
    mergeSort_eq_of_perm (hperm.filter _) hsorted, ← List.map_drop, ← List.map_take] at hrows
  exact hrows

/-- What a directory lists is what the statement for the same listing reads from a table of the
users that are seen at present. -/
structure ListsAlike (d : Directory) (users : List User) (p : QueryParams) : Prop where
  /-- No column that is filtered by is unknown to the directory or to the table. -/
  known : ∀ c v, (c, v) ∈ (p.conditions.getD {}).toList →
    (∀ u : User, ∃ x, u.valueNamed? c.name = some x) ∧
      (currentTable users).columns.lookup c.name = some (Datum.ofField v).type
  page : (listing p).build.params = (filtersOf p).map (·.2) ++
    [.int (.ofNat (Directory.pageSize p.pagination.limit)),
      .int (.ofNat (min p.pagination.offset 0x7fffffffffffffff))]
  rows : ∃ rows, (currentTable users).rows? currentUserTable (listing p).build = some rows ∧
    rows.mapM userOfRow? = some (d.query p)
  answer : ∀ store : UserStore,
    ((store.query p).run ((currentTable users).server currentUserTable) []).2 = .ok (d.query p)

theorem query_eq_of_small (hsmall : d.currentUsers.length < 0x8000000000000000) (p : QueryParams) :
    d.query p = ((d.currentUsers.filter p.isMetBy).drop
      (min p.pagination.offset 0x7fffffffffffffff)).take
        (Directory.pageSize p.pagination.limit) := by
  rcases Nat.le_total p.pagination.offset 0x7fffffffffffffff with hle | hge
  · rw [Nat.min_eq_left hle, Directory.query]
  · have hlength : (d.currentUsers.filter p.isMetBy).length ≤ 0x7fffffffffffffff :=
      Nat.le_trans (List.length_filter_le _ _) (Nat.le_of_lt_succ hsmall)
    rw [Nat.min_eq_right hge, Directory.query, List.drop_eq_nil_of_le hlength,
      List.drop_eq_nil_of_le (Nat.le_trans hlength hge)]

theorem run_makeReady (t : Table) (source sql : String) (store : UserStore) :
    ∃ past, (store.makeReady sql).run (t.server source) [] = (past, .ok ()) := by
  obtain ⟨logs⟩ := store
  cases logs with
  | false => exact ⟨_, rfl⟩
  | true => exact ⟨_, rfl⟩

theorem run_rows {t : Table} {source : String} {s : Statement} {rows : List Row}
    (hrows : t.rows? source s = some rows) (store : UserStore) :
    ((store.rows s).run (t.server source) []).2 = .ok rows := by
  obtain ⟨past, hready⟩ := run_makeReady t source s.sql store
  rw [UserStore.rows, Conversation.run_bind, hready]
  simp only [UserStore.exchange, Conversation.exchange, Conversation.run, Table.server, hrows]

theorem run_query {t : Table} {p : QueryParams} {rows : List Row}
    (hrows : t.rows? currentUserTable (listing p).build = some rows)
    (husers : rows.mapM userOfRow? = some users) (store : UserStore) :
    ((store.query p).run (t.server currentUserTable) []).2 = .ok users := by
  have hread := run_rows hrows store
  rw [UserStore.query, Conversation.run_bind]
  split
  · rename_i hran
    rw [hran] at hread
    cases hread
    simp [Conversation.run_bind, Conversation.note, Conversation.run, husers, Conversation.read]
  · rename_i hran
    rw [hran] at hread
    cases hread

/-- In whatever order a table holds the current users. -/
theorem lists_alike (h : d.Reachable mint) (hsmall : d.currentUsers.length < 0x8000000000000000)
    (hperm : users.Perm d.currentUsers) :
    (∀ p : QueryParams, ListsAlike d users p) ∧
      ∀ q : ListUsersQuery, ListsAlike d users q.toParams := by
  have hlists : ∀ p : QueryParams, ListsAlike d users p := by
    intro p
    have hrows := rows?_listing h.ordered hperm p
    rw [← query_eq_of_small hsmall] at hrows
    have husers : ((d.query p).map currentRow).mapM userOfRow? = some (d.query p) := by
      refine mapM_userOfRow? ?_
      intro u hu
      exact h.ordered.isLatestVersion
        (List.mem_of_mem_filter (List.mem_of_mem_drop (List.mem_of_mem_take hu)))
    constructor
    · intro c v hcv
      exact ⟨fun u => ⟨_, u.valueNamed?_name c⟩,
        lookup_currentTable users (UserPatch.mem_toList_iff.mp hcv)⟩
    · show (filtersOf p).map (·.2) ++ [.int (listing p).limit, .int (listing p).offset] = _
      rw [limit_listing, offset_listing]
    · exact ⟨_, hrows, husers⟩
    · exact run_query hrows husers
  exact ⟨hlists, fun q => hlists q.toParams⟩

/-- Two users with descending ids, in the order in which they were created. -/
theorem lists_alike_of_table_in_order_of_creation :
    let mint : Mint := fun n => .ofNat (9 - n)
    let d := Directory.serveAll mint {} [.save { firstName := "Ada" }, .save { firstName := "Bo" }]
    let p : QueryParams := ⟨some { isAdmin := .present false }, ⟨1, 5000⟩⟩
    d.Reachable mint ∧ d.currentUsers.length < 0x8000000000000000 ∧
      d.currentUsers.reverse.Perm d.currentUsers ∧
      (d.query p).map (·.firstName) = ["Ada"] ∧ ListsAlike d d.currentUsers.reverse p := by
  intro mint d p
  have hreachable : d.Reachable mint := Directory.reachable_serveAll mint _
  have hsmall : d.currentUsers.length < 0x8000000000000000 := by decide +kernel
  have hperm : d.currentUsers.reverse.Perm d.currentUsers := List.reverse_perm _
  exact ⟨hreachable, hsmall, hperm, by decide +kernel, (lists_alike hreachable hsmall hperm).1 p⟩

end UserDirectory.Sql
