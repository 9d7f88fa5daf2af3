import Destiny.Foundation.Run
import Destiny.Foundation.InfiniteRun
import Destiny.Foundation.Retry
import Destiny.Foundation.Linearizability
import Destiny.Foundation.WrapCounter
import Destiny.Foundation.LapOrder
import Destiny.Foundation.ReleaseAcquire
import Destiny.Foundation.Interpretation
import Destiny.Foundation.CInt
import Destiny.Foundation.CIntBits
import Destiny.Foundation.CIntBytes
import Destiny.Foundation.CIntModular
import Destiny.Foundation.CIntDiv
import Destiny.Foundation.CIntOrder
import Destiny.Foundation.CIntShift
import Destiny.Foundation.BitArray
import Destiny.Numeric.Types
import Destiny.Numeric.Operators
import Destiny.Numeric.Expression
import Destiny.Numeric.WrappingArithmetic
import Destiny.Numeric.CompoundOperators
import Destiny.Numeric.Division
import Destiny.Numeric.Comparison
import Destiny.Numeric.Widening
import Destiny.Numeric.ValueSemantics
import Destiny.Numeric.Program
import Destiny.Numeric.UintAccess
import Destiny.Numeric.UintViews
import Destiny.Time.Arithmetic
import Destiny.Time.Expression
import Destiny.Time.Definedness
import Destiny.Time.YearMonthDay
import Destiny.Time.CalendarDrift
import Destiny.Replay.BoundMPSC
import Destiny.Replay.System
import Destiny.Replay.Effects
import Destiny.Replay.Conservation
import Destiny.Replay.Sequential
import Destiny.Replay.PushWindow
import Destiny.Replay.Drain
import Destiny.Replay.Batches
import Destiny.Replay.TicketWindow
import Destiny.Replay.SparsePush
import Destiny.Replay.FullQueue
import Destiny.Replay.EmptyPop
import Destiny.Replay.Delivery
import Destiny.Replay.ScanOrder
import Destiny.Replay.Linearizability
import Destiny.Replay.Progress
import Destiny.Replay.Fairness
import Destiny.Replay.MemoryOrder
import Destiny.Replay.HappensBefore
import Destiny.Replay.SpuriousFailure
import Destiny.Replay.WeakPop
