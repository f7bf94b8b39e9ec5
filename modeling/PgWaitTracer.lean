import PgWaitTracer.Capture.MeasuredCpu
import PgWaitTracer.Compute.BurstGreedy
import PgWaitTracer.Compute.CpuList
import PgWaitTracer.Compute.DbTimeAgree
import PgWaitTracer.Compute.ExecutionDetailAgree
import PgWaitTracer.Compute.Fingerprints
import PgWaitTracer.Compute.GrowingIndexes
import PgWaitTracer.Compute.IntervalIndex
import PgWaitTracer.Compute.LockChains
import PgWaitTracer.Compute.TimeModelAgree
import PgWaitTracer.Compute.VariantPatterns
import PgWaitTracer.Compute.WaitList
import PgWaitTracer.Control.OutputQueue
import PgWaitTracer.Escalation.CommandMarkers
import PgWaitTracer.Escalation.ExactProbe
import PgWaitTracer.Escalation.RollingBound
import PgWaitTracer.Escalation.SetupRetry
import PgWaitTracer.Escalation.UsdtNotes
import PgWaitTracer.Escalation.WindowGates
import PgWaitTracer.EventWriter.Checkpoint
import PgWaitTracer.EventWriter.Retention
import PgWaitTracer.EventWriter.SampleWeights
import PgWaitTracer.EventWriter.Watermark
import PgWaitTracer.Live.AccumDrain
import PgWaitTracer.Live.CpuSplit
import PgWaitTracer.Overlay.Wire
import PgWaitTracer.QueryText.Compaction
import PgWaitTracer.QueryText.Store
import PgWaitTracer.Resolver.Finish
import PgWaitTracer.Resolver.Rotation
import PgWaitTracer.Sampler.DwarfLayout
import PgWaitTracer.Sampler.ReadTargets
import PgWaitTracer.Sampler.StatusSnapshot
import PgWaitTracer.Sampler.Weight
import PgWaitTracer.Server.BlockAggWindow
import PgWaitTracer.Server.BlockSkip
import PgWaitTracer.Server.CacheFill
import PgWaitTracer.Server.CoverageExact
import PgWaitTracer.Server.CurrentCache
import PgWaitTracer.Server.EventSort
import PgWaitTracer.Server.FidelityAgree
import PgWaitTracer.Server.LeftSeed
import PgWaitTracer.Server.MarkBudget
import PgWaitTracer.Server.PrefixAgree
import PgWaitTracer.Server.ReadBack
import PgWaitTracer.Server.Scatter
import PgWaitTracer.Summary.Consistency
import PgWaitTracer.Summary.CpuCredit
import PgWaitTracer.Summary.FlushAccum
import PgWaitTracer.Summary.QattrTable
import PgWaitTracer.Summary.VisitComplete
import PgWaitTracer.SyntheticQuery.Literals
import PgWaitTracer.Trace.ShortDecode
import PgWaitTracer.Web.StripCache
