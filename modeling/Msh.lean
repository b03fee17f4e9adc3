import Msh.Library.TransitionSystem
import Msh.Library.MutualExclusion
import Msh.Library.SlotAssignment
import Msh.Library.BoundedSearch
import Msh.Library.StructLayout
import Msh.Library.LockStep
import Msh.Library.ByteMemory
import Msh.Library.X86
import Msh.Library.SaveRestore
import Msh.Library.SaveArea
import Msh.Library.Interference
import Msh.Library.SupplyInTurn
import Msh.Library.SlotContents
import Msh.Library.ControlFlow
import Msh.Library.X86Branch
import Msh.Library.SampledRuns
import Msh.Library.PathSearch
import Msh.Library.LineReader
import Msh.Library.TextFields
import Msh.Library.Layout
import Msh.Library.EdgeTrace
import Msh.Library.SplitBlock
import Msh.Library.Passages
import Msh.Library.Buckets
import Msh.Library.LastHit
import Msh.Library.BackwardPaths
import Msh.Library.StackSearch
import Msh.Library.CyclicWalk
import Msh.Runtime.Tables
import Msh.Runtime.ScavengerPool
import Msh.Runtime.Operations
import Msh.Runtime.Machine
import Msh.Runtime.SlotRecords
import Msh.Runtime.HostedPositions
import Msh.Runtime.Compaction
import Msh.Runtime.Packing
import Msh.Runtime.Reallocation
import Msh.Runtime.LockedSection
import Msh.Runtime.StolenScavs
import Msh.Runtime.StepCases
import Msh.Runtime.Ownership
import Msh.Runtime.TableBounds
import Msh.Runtime.TailMove
import Msh.Runtime.Demand
import Msh.Runtime.Symbols
import Msh.Runtime.CrtPos
import Msh.Runtime.LoopCounter
import Msh.Runtime.YieldLinks
import Msh.Runtime.YieldRing
import Msh.Runtime.YieldTargets
import Msh.Runtime.Cleanup
import Msh.Runtime.InitCalls
import Msh.Runtime.ScavengerLife
import Msh.Runtime.Conservation
import Msh.Runtime.Flags
import Msh.Runtime.Handshake
import Msh.Runtime.HandshakeInvariant
import Msh.Runtime.HandshakeSection
import Msh.Runtime.HandshakeSafety
import Msh.Runtime.Spinlock
import Msh.Runtime.HandshakeLock
import Msh.Runtime.HandshakeProgress
import Msh.Runtime.ThreadCreation
import Msh.Bolt.RegSet
import Msh.Bolt.Yield
import Msh.Bolt.RegSetCode
import Msh.Bolt.DefaultInstrumenter
import Msh.Bolt.InsertedCode
import Msh.Bolt.InstrumentedFunction
import Msh.Bolt.CoroutineSwitch
import Msh.Bolt.FilterUnusedRegs
import Msh.Bolt.FilteredRestore
import Msh.Bolt.LoopScanner
import Msh.Bolt.LoopOptimization
import Msh.Bolt.LoopValues
import Msh.Bolt.LoopPreservation
import Msh.Bolt.PseudoInline
import Msh.Bolt.CopiedBlocks
import Msh.Bolt.PseudoCopy
import Msh.Bolt.PseudoInlinePass
import Msh.Bolt.PseudoInlineScan
import Msh.Bolt.PseudoInlineSites
import Msh.Bolt.PseudoInlineRedirect
import Msh.Bolt.PseudoInlineRun
import Msh.Bolt.PseudoInlineBrackets
import Msh.Bolt.BracketedCalls
import Msh.Bolt.YieldCondition
import Msh.Bolt.YieldCounters
import Msh.Bolt.InductionBound
import Msh.Bolt.YieldDistance
import Msh.Bolt.JoinedDistance
import Msh.Bolt.BlockLatency
import Msh.Bolt.PathLatency
import Msh.Bolt.PathRounding
import Msh.Bolt.LoopPaths
import Msh.Bolt.CounterChoice
import Msh.Bolt.CounterRegisters
import Msh.Bolt.LoopEdges
import Msh.Bolt.MidBlocks
import Msh.Bolt.SplitEdges
import Msh.Bolt.EdgesToPatch
import Msh.Bolt.LoopBorder
import Msh.Bolt.EntryEdges
import Msh.Bolt.ExitEdges
import Msh.Bolt.LoopFlow
import Msh.Bolt.CounterPreheader
import Msh.Bolt.GrownFunction
import Msh.Bolt.SplitLatch
import Msh.Bolt.CounterEntries
import Msh.Bolt.CounterSetting
import Msh.Bolt.CounterOnEntry
import Msh.Bolt.LoopDepths
import Msh.Bolt.LatchTarget
import Msh.Bolt.CacheMissList
import Msh.Bolt.ContextPrefetch
import Msh.Profile.LoadProb
import Msh.Profile.TraceSamples
import Msh.Profile.SplitTrace
import Msh.Profile.SymbolLookup
import Msh.Profile.ElapsedCycles
import Msh.Profile.PredecessorPlaces
import Msh.Profile.MissCounts
import Msh.Profile.ProfileText
import Msh.Profile.MissedPcs
import Msh.Apps.PointerChase
