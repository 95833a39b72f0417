import Weregopher.AppServer.JournalHistory
import Weregopher.AppServer.LineReader
import Weregopher.AppServer.RegistryHistory
import Weregopher.Asar.Lookup
import Weregopher.Asar.Replace
import Weregopher.Certification.PublicationStore
import Weregopher.Execution.Launch
import Weregopher.Execution.PackagePath
import Weregopher.Fingerprint.Documents
import Weregopher.Hashed
import Weregopher.Ledger.FailedAppend
import Weregopher.Ledger.History
import Weregopher.Ledger.Writers
import Weregopher.Protocol.Alignment
import Weregopher.Protocol.PendingRequests
import Weregopher.Protocol.StreamCredit
import Weregopher.Proxy.BoundedJson
import Weregopher.Proxy.Prepared
import Weregopher.Renderer.Package
import Weregopher.Transform.MapTotality
import Weregopher.Transform.Materialization
import Weregopher.Transform.SurrogateScan
