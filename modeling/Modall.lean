import Modall.Library.Program
import Modall.Library.Table
import Modall.Library.Transition
import Modall.Execution.Types
import Modall.Persistence.Models
import Modall.Persistence.Session
import Modall.Platform
import Modall.Identity.Repository
import Modall.Execution.Ledger
import Modall.Execution.Leasing
import Modall.Execution.Admission
import Modall.Execution.Retention
import Modall.Execution.Lineage
import Modall.Execution.Lifecycle
import Modall.Execution.Statements
import Modall.Execution.KeyHistory
import Modall.Execution.Refinement.Leasing
import Modall.Execution.Refinement.Claim
import Modall.Execution.Refinement.Retention
import Modall.Execution.Refinement.Admission
import Modall.Execution.System
import Modall.Execution.Safety
import Modall.Execution.Leases
import Modall.Execution.Content
import Modall.Execution.Interference
import Modall.Execution.Idempotency
import Modall.Execution.Confirmation
import Modall.Registry.ScannerPermits
import Modall.Api.Idempotency
import Modall.McpAdapter.Client
import Modall.Execution.Runner
import Modall.Execution.Capacity
import Modall.Registry.Connections
import Modall.Registry.Capabilities
import Modall.Registry.Discovery
import Modall.Registry.Docket
import Modall.Registry.Dossier
import Modall.Registry.Dockets
import Modall.Registry.Statements
import Modall.Registry.Dossiers
import Modall.Registry.Observation
import Modall.Registry.Publication
import Modall.Registry.Effects
import Modall.Registry.System
import Modall.Registry.Review
import Modall.Registry.Refresh
import Modall.Registry.Republication
import Modall.Registry.Executable
import Modall.Registry.Authority
import Modall.Library.Decimal
import Modall.Ops.Telemetry
import Modall.Ops.Exposition
import Modall.Library.Encoding
import Modall.Library.Keyset
import Modall.Api.Cursors
import Modall.Api.Listing
import Modall.Library.Matching
import Modall.Library.Regex
import Modall.Security.Metadata
import Modall.Library.Codecs
import Modall.Library.Spellings
import Modall.Secrets.Provider
import Modall.Worker.TransportBudget
import Modall.Library.Json
import Modall.Library.Worklist
import Modall.Security.Documents
import Modall.Execution.Arguments
import Modall.McpAdapter.Screens
import Modall.McpAdapter.Escapes
import Modall.McpAdapter.ResponseStream
import Modall.McpAdapter.Credentials
import Modall.McpAdapter.ByteMatcher
import Modall.McpAdapter.Boundaries
import Modall.McpAdapter.Segments
import Modall.Library.Scanning
import Modall.McpAdapter.EventScreen
import Modall.McpAdapter.BufferedScreen
import Modall.Library.OrderedDict
import Modall.Ops.Limits
import Modall.Identity.SigningKeys
import Modall.Library.Quoting
import Modall.Security.Bounds
import Modall.Library.Places
import Modall.Security.References
import Modall.Security.Schemas
import Modall.Security.SchemaWalk
import Modall.Security.SchemaAnswers
import Modall.Library.Dumps
import Modall.Registry.OfficialItems
import Modall.Registry.Official
import Modall.Registry.Imports
import Modall.Library.Transactions
import Modall.Registry.SearchCache
import Modall.Library.Locking
import Modall.Execution.LockOrder
import Modall.Execution.Deadlocks
import Modall.Security.Endpoints
import Modall.McpAdapter.EndpointPolicy
import Modall.Library.SortedKeys
import Modall.Registry.MetadataScanner
import Modall.Registry.OfficialSearch
import Modall.Registry.CacheTransparency
import Modall.Library.Serial
import Modall.Identity.Memberships
import Modall.Execution.Recovery
