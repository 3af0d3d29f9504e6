import UserDirectory.Cached.Stage

namespace UserDirectory

/-- The rank of what follows when a user has been delivered to a purpose. -/
def Purpose.rank : Purpose → Nat
  | .answer => 0
  | .confirm _ _ => 6
  | .amend _ => 7

/-- The rank of what follows a write-back. -/
def sequelRank (p : Option Purpose) : Nat := (p.map Purpose.rank).getD 0

namespace Stage

/-- A bound on the stages that can follow, in the task itself and in the write-back that it may
start. Every turn that goes on lowers it. -/
def rank : Stage → Nat
  | .readEntry _ _ p => 6 + p.rank
  | .fetch _ _ p => 5 + p.rank
  | .readIndex _ _ => 13
  | .fetchByEmail _ _ => 5
  | .awaitWrite _ _ p => 3 + sequelRank p
  | .writeEntry _ p => 2 + sequelRank p
  | .writeIndex _ p => 1 + sequelRank p
  | .readReplaced _ => 7
  | .save _ _ => 6
  | .readDoomed _ => 6
  | .delete _ _ => 5
  | .awaitDrop _ emails _ => 3 + emails.length
  | .dropEntry _ emails _ => 2 + emails.length
  | .dropIndex _ (.lookUp _ _) => 6
  | .dropIndex _ (.answer emails _) => 1 + emails.length
  | .query _ => 1
  | .getVersion _ => 1

end Stage

/-- The turns that a task takes for a job, at most. -/
def Job.rank : Job → Nat
  | .request (.get _) => 6
  | .request (.getByEmail _) => 13
  | .request (.save _) => 7
  | .request (.delete _) => 6
  | .request (.query _) => 1
  | .request (.getVersion _) => 1
  | .amend _ _ => 13

end UserDirectory
