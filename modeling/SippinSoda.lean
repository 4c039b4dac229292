import SippinSoda.Lib.Kmp
import SippinSoda.Lib.Machine
import SippinSoda.Lib.Ledger
import SippinSoda.Lib.Owner
import SippinSoda.Search
import SippinSoda.Redact
import SippinSoda.RequestBody
import SippinSoda.BudgetSafety
import SippinSoda.BudgetLeak
import SippinSoda.TeeSafety
import SippinSoda.Engine.Pauses
import SippinSoda.Engine.Production
import SippinSoda.Engine.RuleLookup
import SippinSoda.Engine.Replays
import SippinSoda.Tls.Preparation
import SippinSoda.Tls.LatestCheck
import SippinSoda.Engine.CaptureRing
import SippinSoda.JsonWhitespace
import SippinSoda.HostAddresses
import SippinSoda.RedactionPointers
import SippinSoda.RedactionExact
import SippinSoda.Engine.Decisions
import SippinSoda.Engine.Modification
import SippinSoda.Engine.Deadline
import SippinSoda.Engine.ReplayRequest
import SippinSoda.HopHeaders
import SippinSoda.Workers
import SippinSoda.Engine.InnerRequests
import SippinSoda.Engine.ShownAlike
import SippinSoda.Engine.Preflight
import SippinSoda.Desktop
import SippinSoda.LayoutJobs
import SippinSoda.Engine.Recording
import SippinSoda.Inspection
import SippinSoda.Tls.Bridge
import SippinSoda.Tls.Leaves
import SippinSoda.SearchBox
import SippinSoda.Engine.Endings
import SippinSoda.Engine.Connections
import SippinSoda.Engine.PlainRequests
import SippinSoda.Engine.Disk
