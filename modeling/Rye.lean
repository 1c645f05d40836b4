import Rye.Broker.ShardInfo.Agreement
import Rye.Broker.ShardMgmt.Safety
import Rye.Compat.Date
import Rye.Executables.Heartbeat.Chain
import Rye.Executables.Heartbeat.Timers
import Rye.Jdbc.Commit
import Rye.Jdbc.ShardKey
import Rye.Parser.Cnf
import Rye.Query.Arithmetic
import Rye.Query.Like.Range
import Rye.Query.ListFile
import Rye.Query.Numeric.Compare
import Rye.Query.Numeric.Div
import Rye.Query.Numeric.Rescale
import Rye.Query.Numeric.Text
import Rye.Query.Predicate.Logic
import Rye.Rebalance.Migrator
import Rye.Replication.Barriers
import Rye.Storage.Btree.Key
import Rye.Storage.ExtendibleHash.ObjectKeys
import Rye.Storage.ExtendibleHash.StringKeys
import Rye.Storage.PageBuffer.RedoPoint
import Rye.Storage.SlottedPage.Failures
import Rye.Storage.SlottedPage.Promise
import Rye.Storage.SlottedPage.Rollback
import Rye.Transaction.Lock.Safety
import Rye.Transaction.Lock.ShardKeySafety
import Rye.Transaction.Lock.WakeUp
import Rye.Transaction.Log.Savepoints
import Rye.Transaction.LogPage.Removal
