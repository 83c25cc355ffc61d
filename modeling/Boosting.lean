import Boosting.Binning.Columns
import Boosting.Binning.Raw
import Boosting.Closeness
import Boosting.Lanes.Blocks
import Boosting.Loss.Config
import Boosting.Packing.Encode
import Boosting.Probability
import Boosting.Proofs.Binary.Bounds
import Boosting.Proofs.Binary.Kinds
import Boosting.Proofs.Binning.Agreement
import Boosting.Proofs.Binning.Columns
import Boosting.Proofs.Binning.Division
import Boosting.Proofs.Binning.Faults
import Boosting.Proofs.Binning.Intervals
import Boosting.Proofs.Binning.MachineSearch
import Boosting.Proofs.Binning.Refusals
import Boosting.Proofs.Binning.Requests
import Boosting.Proofs.Binning.Safety
import Boosting.Proofs.Binning.Shares
import Boosting.Proofs.Journal
import Boosting.Proofs.Lanes.Decomposition
import Boosting.Proofs.Lanes.Exponential
import Boosting.Proofs.Lanes.Filling
import Boosting.Proofs.Lanes.Logarithm
import Boosting.Proofs.Lanes.Negation
import Boosting.Proofs.Lanes.Reflection
import Boosting.Proofs.Loss.Configuration
import Boosting.Proofs.Loss.Scales
import Boosting.Proofs.Packing.Capacity
import Boosting.Proofs.Packing.Positions
import Boosting.Proofs.Packing.Repack
import Boosting.Proofs.Packing.Size
import Boosting.Proofs.Packing.Stream
import Boosting.Proofs.Pipeline
import Boosting.Proofs.Session
import Boosting.Proofs.Update.Agreement
import Boosting.Proofs.Update.Layouts
import Boosting.Proofs.Update.Ledger
import Boosting.Proofs.Update.Lookups
import Boosting.Proofs.Update.Partition
import Boosting.Proofs.Update.Pointwise
import Boosting.Proofs.Update.Progress
import Boosting.Proofs.Update.Requests
import Boosting.Proofs.Update.Residuals
import Boosting.Proofs.Update.Samples
import Boosting.Proofs.Update.Samplewise
import Boosting.Sampling.Features
import Boosting.Session
import Boosting.Update.Training
