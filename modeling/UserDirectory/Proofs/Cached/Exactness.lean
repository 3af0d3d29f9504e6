import UserDirectory.Proofs.Cache.Key
import UserDirectory.Proofs.Cached.Clock
import UserDirectory.Proofs.Cached.Schedule

namespace UserDirectory

namespace System

variable {w : Wiring} {mint : Mint} {s s' s₀ s₁ : System} {es es' : List Event} {t u : TaskId}
  {id : Uuid} {r : Reply}

end System

end UserDirectory
