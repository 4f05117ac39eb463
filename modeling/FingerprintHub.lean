import FingerprintHub.Store.Spec
import FingerprintHub.Store.Runs
import FingerprintHub.Store.Contribute
import FingerprintHub.Store.Retention
import FingerprintHub.Store.Expiry
import FingerprintHub.Store.Counts
import FingerprintHub.Store.SyncSeq
import FingerprintHub.Store.Trust
import FingerprintHub.Store.FlagCount
import FingerprintHub.Store.HitCount
import FingerprintHub.Store.Texts
import FingerprintHub.Store.Ledger
import FingerprintHub.Store.Redact
import FingerprintHub.Crypto.FieldEncryption
import FingerprintHub.Api.Http
import FingerprintHub.Api.Handlers
import FingerprintHub.Api.Service
import FingerprintHub.Api.Authority
import FingerprintHub.Api.ReadBack
import FingerprintHub.Api.ReadPaths
import FingerprintHub.Api.Isolation
import FingerprintHub.Api.Counters
import FingerprintHub.Sync.Paging
import FingerprintHub.Sync.Client
import FingerprintHub.Sync.Mirror
import FingerprintHub.Concurrent.Sessions
import FingerprintHub.Concurrent.Locking
import FingerprintHub.Concurrent.Answers
import FingerprintHub.Concurrent.Flags
import FingerprintHub.Concurrent.Resurrect
import FingerprintHub.Concurrent.Sequences
import FingerprintHub.Concurrent.Cursor
import FingerprintHub.Concurrent.Hits
import FingerprintHub.Concurrent.Serial
import FingerprintHub.Concurrent.Cascade
import FingerprintHub.Concurrent.ForeignKey
import FingerprintHub.Concurrent.Spares
import FingerprintHub.Library.Rewrite
import FingerprintHub.Crypto.Migration
import FingerprintHub.Api.RateLimit
import FingerprintHub.Crypto.Keyring
import FingerprintHub.Crypto.Envelope
import FingerprintHub.Crypto.Decryption
import FingerprintHub.Api.Classify
import FingerprintHub.Library.PyJson
import FingerprintHub.Api.RequestBody
import FingerprintHub.Api.Reports
import FingerprintHub.Library.Linearizable
import FingerprintHub.Concurrent.Drafts
import FingerprintHub.Concurrent.Commits
import FingerprintHub.Concurrent.Linearize
import FingerprintHub.Library.PyJsonDumps
import FingerprintHub.Library.PyJsonWritable
import FingerprintHub.Crypto.JsonField
import FingerprintHub.Api.Consumers
import FingerprintHub.Library.Tally
import FingerprintHub.Store.Totals
import FingerprintHub.Api.Stats
import FingerprintHub.Api.App
import FingerprintHub.Api.Access
import FingerprintHub.Api.Revocation
import FingerprintHub.Library.Throttle
import FingerprintHub.Api.LastSeen
import FingerprintHub.Api.Config
import FingerprintHub.Crypto.Rotation
import FingerprintHub.Api.Processes
