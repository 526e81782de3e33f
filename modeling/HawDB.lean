import HawDB.Proofs.CowHeap
import HawDB.Proofs.DeadlockSearch
import HawDB.Proofs.LockTable
import HawDB.Proofs.GroupCommit
import HawDB.Proofs.VersionReference
import HawDB.Proofs.ReadDependencies
import HawDB.Proofs.IndexRange
import HawDB.Proofs.WalRecovery
import HawDB.Proofs.CanonicalRecord
import HawDB.Proofs.TextValue
import HawDB.Proofs.RowPageCheckpoint
import HawDB.Proofs.DecimalArithmetic
import HawDB.Proofs.Predicate
import HawDB.Proofs.PropertyFilter
import HawDB.Proofs.GraphRangeRead
import HawDB.Proofs.OrderedKeyWalk
import HawDB.Proofs.DatePart
