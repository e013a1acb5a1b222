import CosmicArchitect.Library.Machine
import CosmicArchitect.Library.Endless
import CosmicArchitect.Library.LinkGraph
import CosmicArchitect.Library.OffsetTree
import CosmicArchitect.Spatial3D.CommandLists
import CosmicArchitect.Spatial3D.TaskStates
import CosmicArchitect.Spatial3D.TouchedNodes
import CosmicArchitect.Spatial3D.ScaleOrder
import CosmicArchitect.Spatial3D.LoadGating
import CosmicArchitect.Spatial3D.FailedIO
import CosmicArchitect.Spatial3D.FailedOpen
import CosmicArchitect.Simulation.WaitUntilStopped
import CosmicArchitect.Simulation.DeferredCommands
import CosmicArchitect.Simulation.DispatchOrder
import CosmicArchitect.Util.TinyOctreeMap
import CosmicArchitect.Util.TinyOctreeIterate
import CosmicArchitect.Util.TinyOctreeShrink
import CosmicArchitect.Util.PolyEntities
import CosmicArchitect.Util.PolyCallbacks
import CosmicArchitect.Util.RefsExact
import CosmicArchitect.Spatial3D.LinkedStates
import CosmicArchitect.Spatial3D.Registration
import CosmicArchitect.Spatial3D.UnloadingWorld
import CosmicArchitect.Spatial3D.LoadedInRange
import CosmicArchitect.Spatial3D.DrainedWorld
import CosmicArchitect.Spatial3D.EntityNodes
import CosmicArchitect.Util.UUID
import CosmicArchitect.Util.DirtyRanges
import CosmicArchitect.Util.DirtyChunks
import CosmicArchitect.Library.MaximalRuns
import CosmicArchitect.Util.DirtyRuns
import CosmicArchitect.Library.RingSlots
import CosmicArchitect.Util.CircularBuffer
import CosmicArchitect.Util.GrowingBuffer
import CosmicArchitect.Util.ThreadChecker
import CosmicArchitect.UniverseServer.CacheUpdates
import CosmicArchitect.Commands.CommandOrder
import CosmicArchitect.Commands.GodotCommands
import CosmicArchitect.Render.RequestAccounting
import CosmicArchitect.Render.RenderIds
import CosmicArchitect.Simulation.NodeUnloads
import CosmicArchitect.Simulation.Shutdown
import CosmicArchitect.Simulation.LoaderWorlds
import CosmicArchitect.Util.WorkerIterate
import CosmicArchitect.Util.RefErase
import CosmicArchitect.Library.Sweep
import CosmicArchitect.Util.CleanupSweep
import CosmicArchitect.Library.ObjectHeap
import CosmicArchitect.Util.PolyMemory
import CosmicArchitect.Util.PolyRefinement
import CosmicArchitect.Util.PolyAlignment
import CosmicArchitect.Universe.RecordBounds
import CosmicArchitect.Commands.CommandCounts
import CosmicArchitect.Commands.CommandsLeft
import CosmicArchitect.Commands.FlushTermination
import CosmicArchitect.Library.SlotMemory
import CosmicArchitect.Util.UUIDComparison
import CosmicArchitect.Util.StackAllocator
import CosmicArchitect.Util.BufferObservers
import CosmicArchitect.Voxel.OctreeSearch
import CosmicArchitect.Spatial3D.WorldMemory
import CosmicArchitect.RobinHood.Map
import CosmicArchitect.Util.EntryTable
import CosmicArchitect.TKRZW.SpinSharedMutex
import CosmicArchitect.TKRZW.SpinMutex
import CosmicArchitect.Render.RenderModule
import CosmicArchitect.UniverseServer.CacheReads
import CosmicArchitect.Simulation.DeferredSignals
import CosmicArchitect.DebugRender.DebugRenderModule
