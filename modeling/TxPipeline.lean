import TxPipeline.Cell.Session
import TxPipeline.Script.Session
import TxPipeline.Storage.Forest
import TxPipeline.Proofs.Assertions
import TxPipeline.Proofs.Attribution
import TxPipeline.Proofs.Bookkeeping
import TxPipeline.Proofs.Conclusion
import TxPipeline.Proofs.Delivery
import TxPipeline.Proofs.Exclusion
import TxPipeline.Proofs.Noninterference
import TxPipeline.Proofs.Spacing
import TxPipeline.Proofs.Termination
import TxPipeline.Proofs.Undrained
import TxPipeline.Proofs.Visibility
import TxPipeline.Proofs.Audience.Overtaken
import TxPipeline.Proofs.Cell.Values
import TxPipeline.Proofs.Admission.Refusals
import TxPipeline.Proofs.Closing.Shutdown
import TxPipeline.Proofs.Order.Precedence
import TxPipeline.Proofs.Storage.Lineage
