import Portmark.Lib.Assoc
import Portmark.Lib.Value
import Portmark.Security.Basic
import Portmark.Security.Check
import Portmark.Security.Merge
import Portmark.Security.Limits
import Portmark.Security.Narrow
import Portmark.Lib.Json.Basic
import Portmark.Lib.Json.Reader
import Portmark.Lib.Json.Strings
import Portmark.Lib.Json.Order
import Portmark.Lib.Json.Shape
import Portmark.Lib.Lineage
import Portmark.Security.Json
import Portmark.Security.Attestation
import Portmark.Security.Explain
import Portmark.Security.FailClosed
import Portmark.Witness.Boot
import Portmark.Witness.Fold
import Portmark.Witness.Saves
import Portmark.Witness.Replay
import Portmark.Witness.Steady
import Portmark.Witness.Pages
import Portmark.Host.Clock
import Portmark.Host.Rollback
import Portmark.Host.Nonces
import Portmark.Host.Conduct
import Portmark.Host.Exclusive
import Portmark.Host.Withheld
import Portmark.Storage.Agree
import Portmark.Storage.Columns
import Portmark.Storage.Lease
import Portmark.Audit.Tamper
import Portmark.Audit.Hidden
import Portmark.Audit.Stable
import Portmark.Lib.Json.Reread
import Portmark.Edge.Texts
import Portmark.Edge.Limiter
import Portmark.Edge.Threads
import Portmark.Audit.StoreRead
