import UserDirectory.Cache.Backend
import UserDirectory.Cache.Error
import UserDirectory.Cache.Key
import UserDirectory.Cache.Memory
import UserDirectory.Cache.Redis
import UserDirectory.Cache.RedisUrl
import UserDirectory.Cache.Typed
import UserDirectory.Cached.Fence
import UserDirectory.Cached.Job
import UserDirectory.Cached.Rank
import UserDirectory.Cached.Request
import UserDirectory.Cached.Stage
import UserDirectory.Command
import UserDirectory.Config
import UserDirectory.Directory
import UserDirectory.Error
import UserDirectory.Json.Codec
import UserDirectory.Json.Decoder
import UserDirectory.Json.Dictionary
import UserDirectory.Json.Entries
import UserDirectory.Json.Fault
import UserDirectory.Json.Number
import UserDirectory.Json.Printer
import UserDirectory.Json.Reader
import UserDirectory.Json.Record
import UserDirectory.Json.Token
import UserDirectory.Json.Token.Scan
import UserDirectory.Json.Value
import UserDirectory.Log
import UserDirectory.Network.Address
import UserDirectory.Network.Percent
import UserDirectory.Optional
import UserDirectory.Page
import UserDirectory.Query
import UserDirectory.Rehearsal.Basic
import UserDirectory.Rehearsal.Labels
import UserDirectory.Rehearsal.Script
import UserDirectory.Rehearsal.Server
import UserDirectory.Sql.ConnectionString
import UserDirectory.Sql.Conversation
import UserDirectory.Sql.FilterQuery
import UserDirectory.Sql.Migration
import UserDirectory.Sql.Migrator
import UserDirectory.Sql.Migrators
import UserDirectory.Sql.Pool
import UserDirectory.Sql.Select
import UserDirectory.Sql.Selection
import UserDirectory.Sql.Statement
import UserDirectory.Sql.StoredRows
import UserDirectory.Sql.Transcript
import UserDirectory.Sql.UserStore
import UserDirectory.Sql.UserTables
import UserDirectory.Text.Blank
import UserDirectory.Text.Integer
import UserDirectory.Text.Quoted
import UserDirectory.Text.Symbols
import UserDirectory.Text.Visible
import UserDirectory.User
import UserDirectory.User.Json
import UserDirectory.User.Patch
import UserDirectory.Uuid
import UserDirectory.Uuid.Text
import UserDirectory.Cached.System
import UserDirectory.Proofs.Association
import UserDirectory.Proofs.Cached.Fence
import UserDirectory.Proofs.Cached.Turn
import UserDirectory.Proofs.Cached.System
import UserDirectory.Proofs.Cached.Exclusion
import UserDirectory.Proofs.Cache.Key
import UserDirectory.Proofs.Cached.Exactness
import UserDirectory.Cached.Schedule
import UserDirectory.Proofs.Cached.Schedule
import UserDirectory.Proofs.Json.Written
import UserDirectory.Proofs.Json.Record
import UserDirectory.Proofs.User.Json
import UserDirectory.Proofs.Directory
import UserDirectory.Proofs.Cache.Memory
import UserDirectory.Proofs.Cache.Handle
import UserDirectory.Proofs.Json.RoundTrip
import UserDirectory.Proofs.Cached.Origin
import UserDirectory.Proofs.Cached.Coherence
import UserDirectory.Proofs.Cached.Read
import UserDirectory.Proofs.Cached.Write
import UserDirectory.Proofs.Cached.Amendment
import UserDirectory.Proofs.Cached.Clearance
import UserDirectory.Proofs.Cached.Course
import UserDirectory.Proofs.Cached.ReadYourWrites
import UserDirectory.Proofs.Cached.Staleness
import UserDirectory.Proofs.Directory.Versions
import UserDirectory.Proofs.Directory.Sparing
import UserDirectory.Proofs.Cached.Sparing
import UserDirectory.Proofs.Cached.Series
import UserDirectory.Proofs.Cached.Editing
import UserDirectory.Proofs.Cached.Loose
import UserDirectory.Proofs.Cached.Content
import UserDirectory.Proofs.Cached.World
import UserDirectory.Proofs.Cached.Independence
import UserDirectory.Proofs.Directory.Contents
import UserDirectory.Proofs.Cached.Solo
import UserDirectory.Proofs.Cached.Replacement
import UserDirectory.Proofs.Cached.EmailIndex
import UserDirectory.Proofs.Rehearsal.System
import UserDirectory.Proofs.Rehearsal.Task
import UserDirectory.Proofs.Rehearsal.Run
import UserDirectory.Proofs.Directory.AppendOnly
import UserDirectory.Proofs.Sql.Saving
import UserDirectory.Proofs.Directory.Journal
import UserDirectory.Proofs.Directory.Listing
import UserDirectory.Proofs.Directory.Reads
import UserDirectory.Proofs.Directory.Counts
import UserDirectory.Proofs.Cached.Ledger
import UserDirectory.Proofs.Cached.Identities
import UserDirectory.Cached.Split
import UserDirectory.Proofs.Cached.Split
import UserDirectory.Proofs.Cached.Turns
import UserDirectory.Proofs.Cached.Progress
import UserDirectory.Proofs.Sql.Transcript
import UserDirectory.Proofs.Sql.Selection
import UserDirectory.Proofs.Sql.Listing
import UserDirectory.Proofs.Sql.Migrator
import UserDirectory.Proofs.Sql.Migrators
import UserDirectory.Proofs.Sql.AppliedOnce
import UserDirectory.Proofs.Sql.Errors
import UserDirectory.Proofs.Sql.Placeholders
import UserDirectory.Proofs.Cached.Direct
import UserDirectory.Proofs.Directory.Paging
import UserDirectory.Proofs.User.Patch
import UserDirectory.Proofs.Directory.Patching
import UserDirectory.Proofs.Json.Literals
import UserDirectory.Proofs.Json.Members
import UserDirectory.Proofs.Json.Buffered
import UserDirectory.Proofs.Json.Grammar
import UserDirectory.Proofs.Json.Lexing
import UserDirectory.Proofs.Json.Words
import UserDirectory.Proofs.User.Flattened
import UserDirectory.Proofs.User.PatchBody
import UserDirectory.Proofs.Directory.Bodies
import UserDirectory.Proofs.Cached.Lookup
import UserDirectory.Proofs.Cached.Mending
import UserDirectory.Proofs.Cached.Healing
import UserDirectory.Cache.Subject
import UserDirectory.Proofs.Cache.Separation
import UserDirectory.Cache.Expiring
import UserDirectory.Proofs.Cache.Expiring
import UserDirectory.Proofs.Sql.Projection
import UserDirectory.Proofs.Sql.ReadBack
