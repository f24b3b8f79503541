import DartSdk.ParallelMoveResolve
import DartSdk.PlatformHashMapHistory
import DartSdk.PortMapHistory
import DartSdk.FreeListHistory
import DartSdk.HashTableCanonical
import DartSdk.RangeAnalysisRedundant
import DartSdk.IntegerSelectorSimulation
import DartSdk.FlowGraphSsa
import DartSdk.FlowGraphLoops
import DartSdk.FlowGraphLiveness
import DartSdk.BigintBits
import DartSdk.BigintDivisionHistory
import DartSdk.BigintRoundTrip
import DartSdk.IntegersShifts
import DartSdk.DataStreamRoundTrip
import DartSdk.UnicodeDecoding
import DartSdk.CompactHashLimit
import DartSdk.ListQueueRefines
import DartSdk.FixnumExact
import DartSdk.FixnumInt32
import DartSdk.SortCorrect
import DartSdk.HttpHeadersHistory
import DartSdk.HttpParserBodiless
import DartSdk.HttpParserLines
import DartSdk.UriQuery
import DartSdk.UriResolveExact
import DartSdk.UriParseExact
import DartSdk.WebSocketMessages
import DartSdk.FutureImpl
import DartSdk.TypeMask
import DartSdk.SourceEdits
import DartSdk.BitmapBuilder
import DartSdk.ConvertLineSplitter
