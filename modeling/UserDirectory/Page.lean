import UserDirectory.User.Json

namespace UserDirectory

open UserDirectory.Json

/-- An offset and a limit; a limit of zero stands for the default. -/
structure Pagination where
  offset : Nat := 0
  limit : Nat := 0
  deriving DecidableEq, Repr, Inhabited

/-- The filter and the page of a listing. -/
structure QueryParams where
  conditions : Option UserPatch := none
  pagination : Pagination := {}
  deriving DecidableEq, Inhabited

namespace QueryParams

def filtered (conditions : UserPatch) : QueryParams := { conditions := some conditions }

def withPagination (p : QueryParams) (offset limit : Nat) : QueryParams :=
  { p with pagination := { offset, limit } }

/-- Whether a user meets the conditions; without conditions every user does. -/
def isMetBy (p : QueryParams) (u : User) : Bool := p.conditions.all (·.isMatchedBy u)

end QueryParams

def defaultLimit : Nat := 10

def maxLimit : Nat := 1000

/-- The largest offset that fits a signed 64-bit integer. -/
def maxOffset : Nat := 0x7fffffffffffffff

def effectiveLimit (limit : Nat) : Nat := if limit = 0 then defaultLimit else min limit maxLimit

structure PageBounds where
  limit : Nat
  offset : Nat
  deriving DecidableEq, Repr

def PageBounds.of (limit offset : Option Nat) : PageBounds :=
  ⟨effectiveLimit (limit.getD 0), min (offset.getD 0) maxOffset⟩

instance : Inhabited PageBounds := ⟨.of none none⟩

def Pagination.toJson (p : Pagination) : Value :=
  .object [("offset", .natural p.offset), ("limit", .natural p.limit)]

structure PaginationDraft where
  offset : Option Nat := none
  limit : Option Nat := none

def Pagination.decoder : Decoder Pagination :=
  Record.decoder
    { name := "Pagination"
      fields :=
        [.of "offset" (.unsigned 64) .defaulted (·.offset) fun d x => { d with offset := some x },
          .of "limit" (.unsigned 64) .defaulted (·.limit) fun d x => { d with limit := some x }]
      empty := ({} : PaginationDraft)
      finish := fun d => ⟨d.offset.getD 0, d.limit.getD 0⟩ }

end UserDirectory
