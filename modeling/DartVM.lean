import DartVM.ParallelMove.Correct
import DartVM.ParallelMove.Scratch
import DartVM.DataStream.RoundTrip
import DartVM.HashTable.Correct
import DartVM.RangeAnalysis.BoundsChecks
import DartVM.RangeAnalysis.Overflow
import DartVM.IntegerSelection.Narrowing
import DartVM.PriorityQueue.Timeouts
import DartVM.FreeList.Runs
import DartVM.BigInt.DivCache
import DartVM.BigInt.Text
import DartVM.BigInt.Exponentiation
import DartVM.Uri.Escapes
import DartVM.Exhaustiveness.Terminates
import DartVM.Collection.SplayTreeSet
import DartVM.Internal.SortCorrect
import DartVM.Convert.Base64Correct
import DartVM.Convert.LineSplitter
import DartVM.FlowAnalysis.FlowLinkReader
import DartVM.FlowAnalysis.PromotionJoin
import DartVM.Exhaustiveness.Intersection
import DartVM.TypeFlow.Soundness
import DartVM.TypeFlow.CheckElimination
import DartVM.TypeFlow.GenericInterfaces
import DartVM.Core.LocalTime
import DartVM.Loops.InductionVar
