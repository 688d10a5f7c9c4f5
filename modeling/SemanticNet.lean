import SemanticNet.ElementType.Narrowing
import SemanticNet.ElementType.Catalogue
import SemanticNet.Monitors
import SemanticNet.LogFilter
import SemanticNet.Walk
import SemanticNet.Memory
import SemanticNet.Json.Report
import SemanticNet.Main
import SemanticNet.Proofs.Restoration
import SemanticNet.Proofs.Occupancy
import SemanticNet.Proofs.Committing
import SemanticNet.Proofs.Drafting
import SemanticNet.Proofs.Walking
import SemanticNet.Proofs.Auditing
import SemanticNet.Proofs.Touring
import SemanticNet.Proofs.Protection
import SemanticNet.Proofs.Staleness
import SemanticNet.Proofs.Chains
import SemanticNet.Proofs.Giving
import SemanticNet.Proofs.Figures
import SemanticNet.Proofs.LoadedKinds
import SemanticNet.Proofs.Origins
import SemanticNet.Proofs.OwnTypes
import SemanticNet.Proofs.Refusals
import SemanticNet.Proofs.Starting
import SemanticNet.Proofs.Bootstrapping
import SemanticNet.Proofs.UniqueNames
import SemanticNet.Proofs.Reporting
import SemanticNet.Proofs.LifeCycle
import SemanticNet.Proofs.Limits
import SemanticNet.Proofs.Saving
import SemanticNet.Proofs.Restarting
import SemanticNet.Proofs.Passes
import SemanticNet.Proofs.NamedConnectors
import SemanticNet.Proofs.Interruptions
import SemanticNet.Proofs.Disclosure
import SemanticNet.Proofs.Grouping
import SemanticNet.Proofs.Detection
import SemanticNet.Proofs.Marks
import SemanticNet.Proofs.FirstCalls
import SemanticNet.Proofs.Reuse
import SemanticNet.Proofs.ReadingBack
import SemanticNet.Proofs.Monitoring
import SemanticNet.Proofs.Recording
