import CopperRoute.Geometry.Capsule
import CopperRoute.Geometry.Direction
import CopperRoute.Data.Json
import CopperRoute.Data.Toml.Document
import CopperRoute.Data.Toml.Quoted
import CopperRoute.Layer.Stackup
import CopperRoute.Layer.Navigation
import CopperRoute.Sizing
import CopperRoute.Path.Engine
import CopperRoute.Errors
import CopperRoute.Via
import CopperRoute.Format.Board
import CopperRoute.Format.Intent
import CopperRoute.Change.Split
import CopperRoute.Drag.Motion
import CopperRoute.History
import CopperRoute.Host
import CopperRoute.Session.Basic
import CopperRoute.Tool.Intent
import CopperRoute.Main
import CopperRoute.Proofs.Lifecycle
import CopperRoute.Proofs.Past
import CopperRoute.Proofs.Trail
import CopperRoute.Proofs.HeadGeometry
import CopperRoute.Proofs.RouteChanges
import CopperRoute.Proofs.StagedCopper
import CopperRoute.Proofs.StartCopper
import CopperRoute.Proofs.Intents
import CopperRoute.Proofs.RouteSizes
import CopperRoute.Proofs.CommittedItems
import CopperRoute.Proofs.BoardChanges
import CopperRoute.Proofs.ViaLegality
import CopperRoute.Proofs.SoundCopper
import CopperRoute.Proofs.Numbering
import CopperRoute.Proofs.CommittedRoutes
import CopperRoute.Proofs.LockedCopper
import CopperRoute.Proofs.Attending
import CopperRoute.Proofs.InStep
import CopperRoute.Proofs.Undoing
import CopperRoute.Proofs.ProperCopper
import CopperRoute.Proofs.Refusals
import CopperRoute.Proofs.RouteEndings
import CopperRoute.Proofs.PointerMotions
import CopperRoute.Proofs.Standstill
import CopperRoute.Proofs.HeadLayers
import CopperRoute.Proofs.StepBack
import CopperRoute.Proofs.FreshHeads
import CopperRoute.Proofs.WithdrawnVias
import CopperRoute.Proofs.Announcements
import CopperRoute.Proofs.SizeNews
import CopperRoute.Proofs.BoardDifferences
import CopperRoute.Proofs.CommitReports
import CopperRoute.Proofs.FaithfulDrags
import CopperRoute.Proofs.CommitCount
import CopperRoute.Proofs.CurrentLayer
import CopperRoute.Board.Store
import CopperRoute.Proofs.ClassRules
import CopperRoute.Proofs.DoubleOrder
import CopperRoute.Proofs.BoardStores
import CopperRoute.Proofs.SavedBoards
import CopperRoute.Proofs.BoardSearch
import CopperRoute.Proofs.DragStarts
import CopperRoute.Proofs.MovedCopper
import CopperRoute.Proofs.Histories
import CopperRoute.Proofs.ViaPolicy
import CopperRoute.Proofs.SettledSizes
import CopperRoute.Proofs.WholeCommits
import CopperRoute.Proofs.DriftlessDrags
import CopperRoute.Proofs.DragClearance
import CopperRoute.Proofs.HeadShapes
import CopperRoute.Proofs.ObstacleModes
import CopperRoute.Proofs.Resizing
import CopperRoute.Proofs.LayerCycle
import CopperRoute.Proofs.ChordTexts
import CopperRoute.Proofs.Meetings
import CopperRoute.Proofs.PointedItems
import CopperRoute.Proofs.BrokenTracks
import CopperRoute.Proofs.CommandLogs
