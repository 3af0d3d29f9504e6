import Mathlib.Data.List.Induction
import UserDirectory.Proofs.Sql.Saving
import UserDirectory.Proofs.User.Patch

namespace UserDirectory.Sql

/-- A step in which a filtered query is put together. -/
inductive FilterCall
  | filter (column : String) (value : Datum)
  | filterAll (filters : List (String × Datum))
  | paginate (page : PageBounds)

namespace FilterCall

def apply (q : FilterQuery) : FilterCall → FilterQuery
  | .filter column value => q.filter column value
  | .filterAll filters => q.filterAll filters
  | .paginate page => q.paginate page

def added : FilterCall → List (String × Datum)
  | .filter column value => [(column, value)]
  | .filterAll filters => filters
  | .paginate _ => []

def page? : FilterCall → Option PageBounds
  | .paginate page => some page
  | _ => none

end FilterCall

def addedBy (calls : List FilterCall) : List (String × Datum) := calls.flatMap FilterCall.added

/-- The page that was set last, or else the default. -/
def lastPage (calls : List FilterCall) : PageBounds :=
  (calls.filterMap FilterCall.page?).getLast?.getD default

/-- The query that several steps make, one after the other. -/
def FilterQuery.ofCalls (base orderBy : String) (calls : List FilterCall) : FilterQuery :=
  calls.foldl FilterCall.apply { base, orderBy }

/-- The text of a query that compares columns with places in their order, and ends with those of the
limit and the offset. -/
def numberedText (base orderBy : String) (columns : List String) : String :=
  let comparisons := (columns.zipIdx 1).map fun (column, k) => column ++ " = $" ++ toString k
  base ++ (if columns = [] then "" else " WHERE " ++ String.intercalate " AND " comparisons) ++
    " " ++ orderBy ++ " LIMIT $" ++ toString (columns.length + 1) ++
    " OFFSET $" ++ toString (columns.length + 2)

variable {base orderBy : String} {calls : List FilterCall}

namespace FilterQuery

theorem ofCalls_append (base orderBy : String) (calls : List FilterCall) (call : FilterCall) :
    ofCalls base orderBy (calls ++ [call]) = call.apply (ofCalls base orderBy calls) := by
  rw [ofCalls, List.foldl_append]
  rfl

/-- What is in a query after some steps. -/
theorem ofCalls_eq (base orderBy : String) (calls : List FilterCall) :
    ofCalls base orderBy calls =
      ⟨base, orderBy, addedBy calls, bigint (lastPage calls).limit,
        bigint (lastPage calls).offset⟩ := by
  induction calls using List.reverseRecOn with
  | nil => rfl
  | append_singleton calls call ih =>
      rw [ofCalls_append, ih, addedBy, addedBy, lastPage, lastPage, List.flatMap_append,
        List.filterMap_append]
      cases call with
      | filter column value => simp [FilterCall.apply, filter, FilterCall.added, FilterCall.page?]
      | filterAll filters => simp [FilterCall.apply, filterAll, FilterCall.added, FilterCall.page?]
      | paginate page => simp [FilterCall.apply, paginate, FilterCall.added, FilterCall.page?]

end FilterQuery

theorem comparisons_eq (n : Nat) (filters : List (String × Datum)) :
    comparisons n filters =
      ((filters.map (·.1)).zipIdx n).map fun (column, k) => column ++ " = $" ++ toString k := by
  induction filters generalizing n with
  | nil => rfl
  | cons f filters ih =>
      have hequal : " = $" = " = " ++ "$" := rfl
      rw [comparisons, ih, List.map_cons, List.zipIdx_cons, List.map_cons, place, hequal]
      simp only [String.append_assoc]

theorem sql_build_eq (q : FilterQuery) :
    q.build.sql = numberedText q.base q.orderBy (q.filters.map (·.1)) := by
  have hlength : (whereClause q.filters).params.length = q.filters.length := List.length_map _
  have hlimit : " LIMIT $" = " LIMIT " ++ "$" := rfl
  have hoffset : " OFFSET $" = " OFFSET " ++ "$" := rfl
  have hclause : (whereClause q.filters).sql =
      if q.filters.map (·.1) = [] then ""
      else " WHERE " ++ String.intercalate " AND " (((q.filters.map (·.1)).zipIdx 1).map
        fun (column, k) => column ++ " = $" ++ toString k) := by
    simp only [whereClause, comparisons_eq, List.isEmpty_iff, List.map_eq_nil_iff]
  rw [FilterQuery.build, numberedText, hclause, hlength, List.length_map, hlimit, hoffset, place,
    place]
  simp only [String.append_assoc]

theorem params_build (q : FilterQuery) :
    q.build.params = q.filters.map (·.2) ++ [.int q.limit, .int q.offset] :=
  rfl

theorem bigint_eq (n : Nat) : bigint n = min (n : Int) 0x7fffffffffffffff := by
  rw [bigint]
  show ((min n 0x7fffffffffffffff : Nat) : Int) = _
  omega

/-- How the text and the parameters of a query that several steps make hang together. -/
structure Aligned (base orderBy : String) (calls : List FilterCall) (s : Statement) : Prop where
  text : s.sql = numberedText base orderBy ((addedBy calls).map (·.1))
  length : s.params.length = (addedBy calls).length + 2
  value : ∀ (k : Nat) (f : String × Datum), (addedBy calls)[k]? = some f → s.params[k]? = some f.2
  limit : ∃ limit : Int, s.params[(addedBy calls).length]? = some (.int limit) ∧
    limit = min ((lastPage calls).limit : Int) 0x7fffffffffffffff ∧ 0 ≤ limit
  offset : ∃ offset : Int, s.params[(addedBy calls).length + 1]? = some (.int offset) ∧
    offset = min ((lastPage calls).offset : Int) 0x7fffffffffffffff ∧ 0 ≤ offset

theorem aligned_build (base orderBy : String) (calls : List FilterCall) :
    Aligned base orderBy calls (FilterQuery.ofCalls base orderBy calls).build := by
  have hlength : ((addedBy calls).map (·.2)).length = (addedBy calls).length := List.length_map _
  rw [FilterQuery.ofCalls_eq]
  constructor
  · exact sql_build_eq _
  · rw [params_build, List.length_append, hlength]
    rfl
  · intro k f hf
    have hk : k < ((addedBy calls).map (·.2)).length := by
      rw [hlength]
      exact (List.getElem?_eq_some_iff.mp hf).1
    rw [params_build, List.getElem?_append_left hk, List.getElem?_map, hf, Option.map_some]
  · refine ⟨_, ?_, bigint_eq _, Int.natCast_nonneg _⟩
    rw [params_build, List.getElem?_append_right (Nat.le_of_eq hlength), hlength, Nat.sub_self]
    rfl
  · refine ⟨_, ?_, bigint_eq _, Int.natCast_nonneg _⟩
    have hlast : ((addedBy calls).map (·.2)).length ≤ (addedBy calls).length + 1 := by
      rw [hlength]
      exact Nat.le_succ _
    rw [params_build, List.getElem?_append_right hlast, hlength, Nat.add_sub_cancel_left]
    rfl

def listedColumns (p : QueryParams) : List String :=
  (Column.all.filter fun c => ((p.conditions.getD {}).value? c).isSome).map Column.name

def listingCalls (p : QueryParams) : List FilterCall :=
  [.filterAll ((p.conditions.getD {}).toList.map fun (c, v) => (c.name, .ofField v)),
    .paginate (.of (some p.pagination.limit) (some p.pagination.offset))]

theorem listing_eq_ofCalls (p : QueryParams) :
    listing p = .ofCalls currentUserTable "ORDER BY id" (listingCalls p) :=
  rfl

theorem columns_listingCalls (p : QueryParams) :
    (addedBy (listingCalls p)).map (·.1) = listedColumns p := by
  have hadded : addedBy (listingCalls p) =
      (p.conditions.getD {}).toList.map fun (c, v) => (c.name, .ofField v) :=
    List.append_nil _
  rw [hadded, listedColumns, ← UserPatch.map_fst_toList, List.map_map, List.map_map]
  rfl

def listingExchanges (p : QueryParams) : List Exchange :=
  [.connect, .prepare (listing p).build.sql true, .query (listing p).build]

theorem exchanges_of_yields {store : UserStore} {p : QueryParams} {es : List Exchanged}
    {r : Except (Failure UserError) (List User)} (h : (store.query p).Yields es r) :
    es.map (·.exchange) <+: listingExchanges p ∧
      ∀ users, r = .ok users → es.map (·.exchange) = listingExchanges p := by
  simp only [UserStore.query, UserStore.rows, UserStore.makeReady, Conversation.bind_assoc] at h
  rcases Conversation.yields_exchange_bind.mp h with ⟨f, rfl, rfl⟩ | ⟨_, es, rfl, hready⟩
  · exact ⟨⟨_, rfl⟩, nofun⟩
  replace hready := UserStore.yields_announce_bind.mp hready
  rcases Conversation.yields_exchange_bind.mp hready with ⟨f, rfl, rfl⟩ | ⟨_, es, rfl, hsent⟩
  · exact ⟨⟨_, rfl⟩, nofun⟩
  rcases Conversation.yields_exchange_bind.mp hsent with ⟨f, rfl, rfl⟩ | ⟨rows, es, rfl, hread⟩
  · exact ⟨⟨[], rfl⟩, nofun⟩
  obtain rfl : es = [] := by
    replace hread := Conversation.yields_log.mp hread
    cases hrows : rows.mapM userOfRow? with
    | none =>
        rw [hrows] at hread
        exact (Conversation.yields_fail.mp hread).1
    | some users =>
        rw [hrows] at hread
        exact (Conversation.yields_done.mp hread).1
  exact ⟨⟨[], rfl⟩, fun _ _ => rfl⟩

/-- However filtered queries are put together, their places, columns and parameters are aligned, and
no value is in their text. A listing of users sends one such text, that depends on its page and the
values of its filter as little. -/
structure PlacesAligned : Prop where
  query : ∀ base orderBy calls,
    Aligned base orderBy calls (FilterQuery.ofCalls base orderBy calls).build
  sameText : ∀ {base orderBy calls calls'},
    (addedBy calls).map (·.1) = (addedBy calls').map (·.1) →
      (FilterQuery.ofCalls base orderBy calls).build.sql =
        (FilterQuery.ofCalls base orderBy calls').build.sql
  listing : ∀ p, Aligned currentUserTable "ORDER BY id" (listingCalls p) (listing p).build ∧
    (addedBy (listingCalls p)).map (·.1) = listedColumns p
  sent : ∀ (store : UserStore) p server,
    ((store.query p).run server []).1.map (·.exchange) <+: listingExchanges p ∧
      ∀ users, ((store.query p).run server []).2 = .ok users →
        ((store.query p).run server []).1.map (·.exchange) = listingExchanges p
  sameListing : ∀ p p' : QueryParams,
    (∀ c, ((p.conditions.getD {}).value? c).isSome = ((p'.conditions.getD {}).value? c).isSome) →
      (Sql.listing p).build.sql = (Sql.listing p').build.sql

theorem places_aligned : PlacesAligned where
  query := aligned_build
  sameText {base orderBy calls calls'} h := by
    rw [(aligned_build base orderBy calls).text, (aligned_build base orderBy calls').text, h]
  listing p := ⟨aligned_build _ _ _, columns_listingCalls p⟩
  sent store p server := by
    obtain ⟨es, hes, hrun⟩ := Conversation.yields_run server [] (store.query p)
    rw [hes, List.nil_append]
    exact exchanges_of_yields hrun
  sameListing p p' h := by
    have hcolumns : listedColumns p = listedColumns p' := by
      simp only [listedColumns, h]
    rw [listing_eq_ofCalls, listing_eq_ofCalls, (aligned_build _ _ _).text,
      (aligned_build _ _ _).text, columns_listingCalls, columns_listingCalls, hcolumns]

end UserDirectory.Sql
