namespace UserDirectory.Json.Entries

/-- Puts a value at the place of its key; the value that the key had gives way to it. -/
def insert [DecidableEq κ] (lt : κ → κ → Bool) (key : κ) (v : α) : List (κ × α) → List (κ × α)
  | [] => [(key, v)]
  | (k, w) :: rest =>
    if lt key k then (key, v) :: (k, w) :: rest
    else if key = k then (key, v) :: rest
    else (k, w) :: insert lt key v rest

/-- The entries in the order of their keys, the last of several with one key. -/
def ofList [DecidableEq κ] (lt : κ → κ → Bool) (entries : List (κ × α)) : List (κ × α) :=
  entries.foldl (fun acc (k, v) => insert lt k v acc) []

end UserDirectory.Json.Entries
