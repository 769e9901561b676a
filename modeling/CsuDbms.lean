import CsuDbms.AccountBinding
import CsuDbms.AggregateNames
import CsuDbms.BitmapSearch
import CsuDbms.BplusTreeRedo
import CsuDbms.CascadeTermination
import CsuDbms.ConstantPredicates
import CsuDbms.DanglingDatabase
import CsuDbms.DatabaseAtomicity
import CsuDbms.DoubleWriteErrors
import CsuDbms.ExpressionTruth
import CsuDbms.FailedCreateTable
import CsuDbms.FrameManager
import CsuDbms.FreePages
import CsuDbms.HeapIndexAgreement
import CsuDbms.IndexLogCodec
import CsuDbms.IntegerArithmetic
import CsuDbms.InternalLookup
import CsuDbms.KeyOrder
import CsuDbms.LatchMemo
import CsuDbms.LogBufferAccounting
import CsuDbms.LogIntegrity
import CsuDbms.MvccSnapshot
import CsuDbms.MvccTrxPending
import CsuDbms.NativeFraming
import CsuDbms.PacketBuffers
import CsuDbms.PageAllocationFailure
import CsuDbms.PageIoBackends
import CsuDbms.PrefixCheck
import CsuDbms.PrivilegeRevocation
import CsuDbms.RecordRecovery
import CsuDbms.ScanRange
import CsuDbms.ScanRetry
import CsuDbms.SqlAuthorization
import CsuDbms.StatementAtomicity
import CsuDbms.StringLiterals
import CsuDbms.TableEngineErrors
import CsuDbms.TableMetaFile
import CsuDbms.ThreeValuedWhere
import CsuDbms.TransactionAssertions
import CsuDbms.WhereAgreement
import CsuDbms.WriteAheadRule
