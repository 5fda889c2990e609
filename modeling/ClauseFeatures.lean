import ClauseFeatures.Config.File
import ClauseFeatures.Database.Build
import ClauseFeatures.Extractor
import ClauseFeatures.Failure
import ClauseFeatures.Proofs.Run
import ClauseFeatures.Proofs.Bucket
import ClauseFeatures.Proofs.LiteralOrder
import ClauseFeatures.Proofs.Placement
import ClauseFeatures.Proofs.Effect
import ClauseFeatures.Proofs.Built
import ClauseFeatures.Proofs.History
import ClauseFeatures.Proofs.Scan
import ClauseFeatures.Proofs.Refusal
import ClauseFeatures.Proofs.WatchInvariant
import ClauseFeatures.Proofs.TraversalOrder
import ClauseFeatures.Proofs.Agreement
import ClauseFeatures.Proofs.Interference
import ClauseFeatures.Proofs.Atomicity
import ClauseFeatures.Proofs.Counters
import ClauseFeatures.Proofs.Computation
import ClauseFeatures.Proofs.Stage
import ClauseFeatures.Proofs.Occurrence
import ClauseFeatures.Proofs.Marker
import ClauseFeatures.Proofs.Partition
import ClauseFeatures.Proofs.Double.Grid
import ClauseFeatures.Proofs.Double.Rounding
import ClauseFeatures.Proofs.Double.Operations
import ClauseFeatures.Proofs.Double.Packing
import ClauseFeatures.Proofs.Double.Value
import ClauseFeatures.Proofs.Double.Nearest
import ClauseFeatures.Proofs.Double.Sized
import ClauseFeatures.Proofs.Double.Shortest
import ClauseFeatures.Proofs.Summation
import ClauseFeatures.Proofs.Size
import ClauseFeatures.Proofs.Array
import ClauseFeatures.Proofs.Statistic
import ClauseFeatures.Proofs.Moment
import ClauseFeatures.Proofs.Population
import ClauseFeatures.Proofs.Extent
import ClauseFeatures.Proofs.Extraction
import ClauseFeatures.Proofs.Sign
import ClauseFeatures.Proofs.Correspondence
import ClauseFeatures.Proofs.Reordering
import ClauseFeatures.Proofs.ActiveVariables
import ClauseFeatures.Proofs.OccurrenceCounts
import ClauseFeatures.Proofs.Incidence
import ClauseFeatures.Proofs.Conversion
import ClauseFeatures.Proofs.Division
import ClauseFeatures.Proofs.Growth
import ClauseFeatures.Proofs.Renaming
import ClauseFeatures.Proofs.Exact.Arithmetic
import ClauseFeatures.Proofs.Exact.Statistic
import ClauseFeatures.Proofs.Exact.Moment
import ClauseFeatures.Proofs.Exact.Distribution
import ClauseFeatures.Proofs.Exact.Isomorphism
import ClauseFeatures.Proofs.Exact.Summary
import ClauseFeatures.Proofs.Exact.Population
import ClauseFeatures.Proofs.Exact.Deviation
import ClauseFeatures.Proofs.Exact.Incidence
import ClauseFeatures.Proofs.ConfigMapping
import ClauseFeatures.Proofs.Yaml.Faults
import ClauseFeatures.Proofs.ConfigText
import ClauseFeatures.Proofs.Yaml.Number
import ClauseFeatures.Proofs.Yaml.Stretch
import ClauseFeatures.Proofs.Yaml.Quoted
import ClauseFeatures.Proofs.Yaml.Escaped
import ClauseFeatures.Proofs.Yaml.Words
import ClauseFeatures.Proofs.Yaml.Place
import ClauseFeatures.Proofs.Yaml.Tokens
import ClauseFeatures.Proofs.Yaml.Section
import ClauseFeatures.Proofs.Yaml.Scalar
import ClauseFeatures.Proofs.ConfigFile
import ClauseFeatures.Proofs.NumberOrder
import ClauseFeatures.Proofs.ConfigScope
import ClauseFeatures.Proofs.Exact.ListedClauses
import ClauseFeatures.Proofs.Builder
import ClauseFeatures.Proofs.Exact.Negation
import ClauseFeatures.Proofs.Exact.Accumulation
import ClauseFeatures.Proofs.LiteralEncoding
import ClauseFeatures.Proofs.ConfigNormal
import ClauseFeatures.Proofs.ShownText
import ClauseFeatures.Proofs.LogStream
