import Unstrip.Encoding
import Unstrip.Main
import Unstrip.Options.Json
import Unstrip.Proofs.AddressWidth
import Unstrip.Proofs.Cursors
import Unstrip.Proofs.CutHeader
import Unstrip.Proofs.Extension
import Unstrip.Proofs.Flags
import Unstrip.Proofs.LimitedSink
import Unstrip.Proofs.Lookup
import Unstrip.Proofs.Machine.Extraction
import Unstrip.Proofs.Mismatch
import Unstrip.Proofs.NameCap
import Unstrip.Proofs.Naming
import Unstrip.Proofs.Overrun
import Unstrip.Proofs.RegionChoice
import Unstrip.Proofs.Relocation
import Unstrip.Proofs.ReportJson
import Unstrip.Proofs.ReportLines
import Unstrip.Proofs.Schedules
import Unstrip.Proofs.Signatures
import Unstrip.Proofs.SortedFlag
import Unstrip.Proofs.StraySection
import Unstrip.Proofs.Trace
import Unstrip.Proofs.Truncation
import Unstrip.Proofs.ValidHeader
