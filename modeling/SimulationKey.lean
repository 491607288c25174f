import SimulationKey.Theorems.AtomicStart
import SimulationKey.Theorems.Atomicity
import SimulationKey.Theorems.Balance
import SimulationKey.Theorems.ChartSeries
import SimulationKey.Theorems.Conservation
import SimulationKey.Theorems.Finality
import SimulationKey.Theorems.Participants
import SimulationKey.Theorems.PassThrough
import SimulationKey.Theorems.PoisonPill
import SimulationKey.Theorems.Preflight
import SimulationKey.Theorems.Rates
import SimulationKey.Theorems.Settlement
import SimulationKey.Theorems.Sharing
import SimulationKey.Theorems.Transient
import SimulationKey.Theorems.Retries
import SimulationKey.Theorems.Loader
import SimulationKey.Theorems.Prorata
import SimulationKey.Theorems.RowOrder
import SimulationKey.Theorems.Volumes
import SimulationKey.Theorems.Pivot
import SimulationKey.Theorems.RowCount
import SimulationKey.Theorems.Paging
import SimulationKey.Theorems.Isolation
import SimulationKey.Theorems.SeriesFiles
import SimulationKey.Theorems.Lexer
import SimulationKey.Theorems.GroupNames
import SimulationKey.Theorems.ConsumerSettings
import SimulationKey.Theorems.SettledLast
import SimulationKey.Theorems.AuditTrail
import SimulationKey.Theorems.Cleanup
import SimulationKey.Theorems.SourceKept
import SimulationKey.Theorems.Orphans
import SimulationKey.Theorems.StoredRun
import SimulationKey.Theorems.SolverPool
import SimulationKey.Theorems.SolverSlots
import SimulationKey.Theorems.Optimum
import SimulationKey.Theorems.Periods
import SimulationKey.Theorems.ChartOfResult
import SimulationKey.Theorems.Noninterference
import SimulationKey.Theorems.Preview
import SimulationKey.Theorems.MoreProduction
import SimulationKey.Theorems.Units
import SimulationKey.Theorems.Messages
import SimulationKey.Theorems.RoundedVolumes
