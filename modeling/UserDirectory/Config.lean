import UserDirectory.Json.Record

namespace UserDirectory

open UserDirectory.Json

/-- How a user that was read from the store gets into the cache. -/
inductive PopulateMode
  /-- Before the read returns. -/
  | inline
  /-- In a task of its own, which the read does not wait for. -/
  | background
  deriving DecidableEq, Repr, Inhabited

def PopulateMode.decoder : Decoder PopulateMode :=
  .variant [("inline", .inline), ("background", .background)]

structure UserCacheConfig where
  ttlSecs : Nat := 86400
  /-- How long any one exchange with the cache may take. -/
  populateTimeoutMs : Nat := 5000
  populateMode : PopulateMode := .background
  deriving DecidableEq, Repr, Inhabited

namespace UserCacheConfig

def inline : UserCacheConfig := { populateMode := .inline }

structure Draft where
  ttlSecs : Option Nat := none
  populateTimeoutMs : Option Nat := none
  populateMode : Option PopulateMode := none

def decoder : Decoder UserCacheConfig :=
  Record.decoder
    { name := "UserCacheConfig"
      fields :=
        [.of "ttl_secs" (.unsigned 64) .defaulted (·.ttlSecs) fun d x =>
            { d with ttlSecs := some x },
          .of "populate_timeout_ms" (.unsigned 64) .defaulted (·.populateTimeoutMs) fun d x =>
            { d with populateTimeoutMs := some x },
          .of "populate_mode" PopulateMode.decoder .defaulted (·.populateMode) fun d x =>
            { d with populateMode := some x }]
      empty := ({} : Draft)
      finish := fun d =>
        let c : UserCacheConfig := {}
        ⟨d.ttlSecs.getD c.ttlSecs, d.populateTimeoutMs.getD c.populateTimeoutMs,
          d.populateMode.getD c.populateMode⟩ }

end UserCacheConfig

/-- Size of a cache in memory, and the longest lifetime of its entries. -/
structure MemoryConfig where
  capacity : Nat := 10000
  ttlSecs : Nat := 86400
  deriving DecidableEq, Repr, Inhabited

namespace MemoryConfig

structure Draft where
  capacity : Option Nat := none
  ttlSecs : Option Nat := none

def decoder : Decoder MemoryConfig :=
  Record.decoder
    { name := "MemoryConfig"
      fields :=
        [.of "capacity" (.unsigned 64) .defaulted (·.capacity) fun d x =>
            { d with capacity := some x },
          .of "ttl_secs" (.unsigned 64) .defaulted (·.ttlSecs) fun d x =>
            { d with ttlSecs := some x }]
      empty := ({} : Draft)
      finish := fun d =>
        let c : MemoryConfig := {}
        ⟨d.capacity.getD c.capacity, d.ttlSecs.getD c.ttlSecs⟩ }

end MemoryConfig

/-- Where a Redis server is, and which of its databases is used. -/
structure RedisDbConfig where
  host : String := "127.0.0.1"
  port : Nat := 6379
  db : Nat := 0
  deriving DecidableEq, Repr, Inhabited

namespace RedisDbConfig

structure Draft where
  host : Option String := none
  port : Option Nat := none
  db : Option Nat := none

def decoder : Decoder RedisDbConfig :=
  Record.decoder
    { name := "RedisDbConfig"
      fields :=
        [.of "host" .text .defaulted (·.host) fun d x => { d with host := some x },
          .of "port" (.unsigned 16) .defaulted (·.port) fun d x => { d with port := some x },
          .of "db" (.unsigned 8) .defaulted (·.db) fun d x => { d with db := some x }]
      empty := ({} : Draft)
      finish := fun d =>
        let c : RedisDbConfig := {}
        ⟨d.host.getD c.host, d.port.getD c.port, d.db.getD c.db⟩ }

end RedisDbConfig

/-- Where a Postgres server is, and how a pool of connections to it is run. -/
structure PostgresDbConfig where
  uri : String
  maxConn : Option Nat := some 16
  minConn : Option Nat := none
  logger : Bool := false
  deriving DecidableEq, Repr, Inhabited

namespace PostgresDbConfig

structure Draft where
  uri : Option String := none
  maxConn : Option (Option Nat) := none
  minConn : Option (Option Nat) := none
  logger : Option Bool := none

def decoder : Decoder PostgresDbConfig :=
  Record.decoder
    { name := "PostgresDbConfig"
      fields :=
        [.of "uri" .text .refused (·.uri) fun d x => { d with uri := some x },
          .of "max_conn" (.nullable (.unsigned 32)) .defaulted (·.maxConn) fun d x =>
            { d with maxConn := some x },
          .of "min_conn" (.nullable (.unsigned 32)) .accepted (·.minConn) fun d x =>
            { d with minConn := some x },
          .of "logger" .bool .defaulted (·.logger) fun d x => { d with logger := some x }]
      empty := ({} : Draft)
      finish := fun d =>
        let c : PostgresDbConfig := { uri := d.uri.getD "" }
        ⟨c.uri, d.maxConn.getD c.maxConn, d.minConn.getD c.minConn, d.logger.getD c.logger⟩ }

end PostgresDbConfig

end UserDirectory
