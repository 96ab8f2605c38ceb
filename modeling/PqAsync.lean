import PqAsync.SplitEndings
import PqAsync.StrandCore
import PqAsync.StrandOrder
import PqAsync.Library.Matching
import PqAsync.PoolCore
import PqAsync.PoolLinks
import PqAsync.Library.Bytes
import PqAsync.Wire
import PqAsync.ArrayCore
import PqAsync.ArrayFormat
import PqAsync.ArrayDecoding
import PqAsync.ArrayEncoding
import PqAsync.ValueCodecs
import PqAsync.ArrayRoundTrip
import PqAsync.ArrayNulls
import PqAsync.TextArrays
import PqAsync.Library.Radix
import PqAsync.NumericCore
import PqAsync.NumericValue
import PqAsync.NumericSum
import PqAsync.Library.LongDivision
import PqAsync.NumericQuotient
import PqAsync.Library.Rounding
import PqAsync.NumericScale
import PqAsync.NumericDivision
import PqAsync.Library.PartialProducts
import PqAsync.NumericProduct
import PqAsync.NumericRemainder
import PqAsync.PoolBound
import PqAsync.TaskCore
import PqAsync.TaskErrors
import PqAsync.ExecCore
import PqAsync.SplitCopies
import PqAsync.ExecQueries
import PqAsync.ExecReports
import PqAsync.TransactionLock
import PqAsync.BeginCalls
import PqAsync.PoolLocks
import PqAsync.PoolCleanup
import PqAsync.PoolPresence
import PqAsync.PoolGiving
import PqAsync.PoolHolders
import PqAsync.SyncCalls
import PqAsync.TransactionCalls
import PqAsync.WaitForSync
import PqAsync.Library.Tokens
import PqAsync.SplitTokens
import PqAsync.SplitComments
import PqAsync.MoneyAmounts
import PqAsync.MoneyOrder
import PqAsync.MoneySums
import PqAsync.MoneyProducts
import PqAsync.MoneyNumbers
import PqAsync.MoneyMixed
import PqAsync.DateReaders
import PqAsync.TimestampTicks
import PqAsync.NumericText
import PqAsync.NumericObtained
import PqAsync.NumericWireCore
import PqAsync.RangeCore
import PqAsync.RangeForms
import PqAsync.NumericWire
import PqAsync.NumericOrder
import PqAsync.NumericRound
import PqAsync.RoundingBuffers
import PqAsync.NumericNan
import PqAsync.RangeRoundTrip
import PqAsync.Library.Decimal
import PqAsync.NumericDecimal
import PqAsync.Library.Buffer
import PqAsync.ParserBuffers
import PqAsync.PrinterBuffers
import PqAsync.NumericLiteral
import PqAsync.NumericCells
import PqAsync.Delivery
import PqAsync.DeliveryErrors
import PqAsync.MoneyText
import PqAsync.NumericInteger
import PqAsync.CellCore
import PqAsync.MoneyNumeric
import PqAsync.CellNulls
import PqAsync.ReaderBounds
import PqAsync.ParametersCache
import PqAsync.RangeOps
import PqAsync.RangeEdits
import PqAsync.RangeIteration
import PqAsync.RangeText
import PqAsync.ParametersCopy
import PqAsync.DateDays
import PqAsync.EpochShifts
import PqAsync.TimeTzZone
import PqAsync.Library.Numerals
import PqAsync.IntervalText
import PqAsync.NetText6
import PqAsync.NetOrder
import PqAsync.HardwareOrder
import PqAsync.Macaddr8Text
import PqAsync.GeoTextCore
import PqAsync.GeometryWire
import PqAsync.IntegerWire
import PqAsync.PathText
import PqAsync.SegmentText
import PqAsync.GeometryCore
import PqAsync.Library.Crossing
import PqAsync.SegmentMeeting
import PqAsync.LineThrough
import PqAsync.PoolDestroy
import PqAsync.Library.RoundRobin
import PqAsync.PoolRotation
import PqAsync.PoolWaiting
import PqAsync.PoolClose
import PqAsync.PoolSharing
import PqAsync.PoolIsolation
import PqAsync.PoolTransactions
import PqAsync.PreparedCore
import PqAsync.PreparedTransactions
import PqAsync.LargeObjectCore
import PqAsync.LargeObjectRuns
import PqAsync.ExecScripts
import PqAsync.StrandCallbacks
import PqAsync.PoolLifetimes
import PqAsync.ScalarEcho
import PqAsync.ResultTables
import PqAsync.ReadingPaths
import PqAsync.NumericSums
import PqAsync.SplitText
import PqAsync.Library.Scanf
import PqAsync.MacaddrText
