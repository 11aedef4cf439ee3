import ClickDoom.Spec.Map
import ClickDoom.Refemu.Decode
import ClickDoom.Refemu.Memory
import ClickDoom.Refemu.Exec
import ClickDoom.Refemu.Halts
import ClickDoom.Refemu.CacheAgrees
import ClickDoom.Refemu.Snapshot
import ClickDoom.Refemu.Resume
import ClickDoom.Base.ClickHouse
import ClickDoom.Executor.Fold
import ClickDoom.Executor.Variants
import ClickDoom.Base.Panics
import ClickDoom.Base.Table
import ClickDoom.Base.Words
import ClickDoom.Driver.Clamped
import ClickDoom.Driver.Recovery
import ClickDoom.Driver.Rom
import ClickDoom.Driver.Runners
import ClickDoom.Executor.MExtension
import ClickDoom.Executor.StoreGuard
import ClickDoom.Executor.Window
import ClickDoom.Native.Demo
import ClickDoom.Native.DemoRuns
import ClickDoom.Native.Rename
import ClickDoom.Native.RowBinary
import ClickDoom.Native.Blocks
import ClickDoom.Native.Bsp
import ClickDoom.Native.SightAgrees
import ClickDoom.Native.TraverseAgrees
import ClickDoom.Native.Session
import ClickDoom.Refemu.Container
import ClickDoom.Refemu.Image
import ClickDoom.Refemu.Load
import ClickDoom.Spec.CheckpointLine
import ClickDoom.Sqlcpu.Assembled
import ClickDoom.Sqlcpu.Flags
import ClickDoom.Native.Buttons
import ClickDoom.Native.Lights
import ClickDoom.Native.PlanesAgree
import ClickDoom.Native.Noise
import ClickDoom.Native.ShootAgrees
import ClickDoom.Native.ChangeSector
import ClickDoom.Native.Surroundings
import ClickDoom.Refemu.SetupThings
import ClickDoom.Csource.Symbols
import ClickDoom.Csource.Init
import ClickDoom.Wad.Exact
import ClickDoom.Native.ChaseAgrees
import ClickDoom.Csource.Total
import ClickDoom.Native.ComposeAgrees
import ClickDoom.Native.SpansAgree
import ClickDoom.Native.OrderAgrees
import ClickDoom.Native.SegLoopAgrees
import ClickDoom.Native.VisplanesAgree
import ClickDoom.Base.Posts
import ClickDoom.Engine.ClipSegs
import ClickDoom.Engine.ClippedWalk
import ClickDoom.Native.Fragments
import ClickDoom.Native.FragmentsAgree
import ClickDoom.Native.Crossings
import ClickDoom.Native.ThinkerList
import ClickDoom.Native.PlaneOwners
