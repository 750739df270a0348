import Keyhole.Lib.Table
import Keyhole.Lib.Prog
import Keyhole.Lib.Operation
import Keyhole.Lib.Run
import Keyhole.Lib.Mealy
import Keyhole.Lib.Feed
import Keyhole.Lib.Csv
import Keyhole.Lib.Fallible
import Keyhole.Lib.Heap
import Keyhole.Lib.Stamped
import Keyhole.Lib.Voucher
import Keyhole.Lib.Keyset
import Keyhole.Lib.Numeral
import Keyhole.Lib.Newest
import Keyhole.Lib.Positions
import Keyhole.Lib.Unicode
import Keyhole.Lib.Json
import Keyhole.Lib.Fields
import Keyhole.Lib.Ascii
import Keyhole.Lib.Digits
import Keyhole.Lib.Double
import Keyhole.Lib.Await
import Keyhole.Lib.Route
import Keyhole.Auth
import Keyhole.Go
import Keyhole.Store.Schema
import Keyhole.Store.Items
import Keyhole.Store.Folders
import Keyhole.Store.Collections
import Keyhole.Store.Sync
import Keyhole.Store.Users
import Keyhole.Store.Sessions
import Keyhole.Store.Account
import Keyhole.Store.Recovery
import Keyhole.Store.Admin
import Keyhole.Store.Command
import Keyhole.Store.Effect
import Keyhole.Store.Evolves
import Keyhole.Store.Delivery
import Keyhole.Store.Conflict
import Keyhole.Store.Removal
import Keyhole.Store.AccountEffect
import Keyhole.Store.Credentials
import Keyhole.Store.Usable
import Keyhole.Store.Uniform
import Keyhole.Store.Admins
import Keyhole.Store.Managers
import Keyhole.Store.Shared
import Keyhole.Store.Operation
import Keyhole.Store.Atomic
import Keyhole.Store.Lifetime
import Keyhole.Store.SessionList
import Keyhole.Store.References
import Keyhole.Store.Retention
import Keyhole.Store.Revisions
import Keyhole.Store.Audit
import Keyhole.Store.Migrations
import Keyhole.Store.Distribution
import Keyhole.Http.Grants
import Keyhole.Http.Items
import Keyhole.Http.Visibility
import Keyhole.Http.Access
import Keyhole.Http.Vanished
import Keyhole.Http.Auth
import Keyhole.Http.Sessions
import Keyhole.Http.Rotation
import Keyhole.Http.Recovery
import Keyhole.Http.Invites
import Keyhole.Http.Redemption
import Keyhole.Http.Usable
import Keyhole.Http.Account
import Keyhole.Http.Throttle
import Keyhole.Http.Enumeration
import Keyhole.Http.Backoff
import Keyhole.Http.Managing
import Keyhole.Http.Authority
import Keyhole.Http.Outsiders
import Keyhole.Vault.Crypto
import Keyhole.Vault.Keys
import Keyhole.Vault.Store
import Keyhole.Vault.Convergence
import Keyhole.Vault.Items
import Keyhole.Vault.Sealing
import Keyhole.Vault.Transcription
import Keyhole.Vault.Generator
import Keyhole.Crypto.Encoding
import Keyhole.Crypto.Symmetric
import Keyhole.Crypto.Item
import Keyhole.Crypto.RoundTrip
import Keyhole.Crypto.Base64
import Keyhole.Crypto.Sealed
import Keyhole.Client.Api
import Keyhole.Client.AutoLock
import Keyhole.Client.Account
import Keyhole.Client.Ownership
import Keyhole.Client.Lifecycle
import Keyhole.Client.Codes
import Keyhole.Client.Refresh
import Keyhole.Client.Session
import Keyhole.Client.Tab
import Keyhole.Client.Locking
import Keyhole.Client.Keyring
import Keyhole.Client.Upload
import Keyhole.Client.Chunks
import Keyhole.Client.Writes
import Keyhole.Client.Genuine
import Keyhole.Client.Sharing
import Keyhole.Client.SharedKey
import Keyhole.Backup.Prune
import Keyhole.Backup.Restore
import Keyhole.Backup.Safety
import Keyhole.Update.Install
import Keyhole.Update.Course
import Keyhole.Update.Verdict
import Keyhole.Update.Rollback
import Keyhole.Update.Verify
import Keyhole.Import.Types
import Keyhole.Import.Csv
import Keyhole.Import.Scanning
import Keyhole.Import.Grammar
import Keyhole.Import.Lines
import Keyhole.Import.LineNumbers
import Keyhole.Import.Shared
import Keyhole.Import.Parsers
import Keyhole.Import.Map
import Keyhole.Import.JsonParsers
import Keyhole.Import.Detect
import Keyhole.Import.Probing
import Keyhole.Import.Notes
import Keyhole.Import.Dedupe
import Keyhole.Import.Rows
import Keyhole.Import.Passwords
import Keyhole.Import.Cells
import Keyhole.Import.Mapping
import Keyhole.Import.RowErrors
import Keyhole.Import.Agreement
import Keyhole.Import.Zip
import Keyhole.Import.ZipSafety
import Keyhole.Import.ZipRoundTrip
import Keyhole.Import.OnePux
import Keyhole.Import.Panel
import Keyhole.Webui
import Keyhole.Http.Routes
import Keyhole.Http.Guarded
import Keyhole.Worker.Handler
import Keyhole.Worker.Kept
import Keyhole.Worker.Shell
import Keyhole.Worker.Deployed
