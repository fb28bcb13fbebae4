import WindowLayout.Engine.Docking
import WindowLayout.Engine.Pointer
import WindowLayout.Proofs.Description.Stable
import WindowLayout.Proofs.Engine.Acceptance
import WindowLayout.Scalar.Double
import WindowLayout.Scalar.Exact
import WindowLayout.Summary
import WindowLayout.Window.Recording
import WindowLayout.Proofs.Engine.Description
import WindowLayout.Proofs.Description.Consistency
import WindowLayout.Proofs.Engine.Watched
import WindowLayout.Proofs.Engine.PointerRequests
import WindowLayout.Proofs.Placement.FilledRow
import WindowLayout.Proofs.Placement.Isolation
import WindowLayout.Proofs.Placement.Areas
import WindowLayout.Proofs.Drag
import WindowLayout.Proofs.Engine.DragLocality
import WindowLayout.Proofs.Description.Normalised
import WindowLayout.Proofs.Engine.Failure
import WindowLayout.Proofs.Engine.Visibility
import WindowLayout.Proofs.Engine.PaneDisplay
import WindowLayout.Proofs.Engine.Containers
import WindowLayout.Proofs.Engine.ReplacedAgain
import WindowLayout.Proofs.Engine.DragPath
import WindowLayout.Proofs.Engine.Touching
import WindowLayout.Proofs.Engine.Forgetting
import WindowLayout.Proofs.Engine.Teardown
import WindowLayout.Proofs.Engine.FloatingPanes
import WindowLayout.Proofs.Engine.Redocking
import WindowLayout.Proofs.Arena.FiniteMap
import WindowLayout.Proofs.Placement.DockTiling
import WindowLayout.Proofs.Tree.Graft
import WindowLayout.Proofs.Engine.PaneDrag
import WindowLayout.Proofs.Region.Fitting
import WindowLayout.Proofs.Placement.Sharing
import WindowLayout.Proofs.Placement.GridSlots
import WindowLayout.Proofs.Placement.GridTiling
import WindowLayout.Proofs.Description.Brackets
import WindowLayout.Proofs.Placement.Levels
import WindowLayout.Proofs.Placement.RowOrder
import WindowLayout.Proofs.Placement.FloorRow
import WindowLayout.Proofs.NearestSplit
import WindowLayout.Proofs.Placement.Fractions
import WindowLayout.Proofs.Placement.RowMinimums
import WindowLayout.Proofs.Engine.PixelWeights
import WindowLayout.Proofs.Engine.PaneInStep
import WindowLayout.Proofs.Description.Spans
import WindowLayout.Proofs.Margin
import WindowLayout.Proofs.Placement.FloorSigns
import WindowLayout.Proofs.Description.NumberLists
import WindowLayout.Proofs.Description.ErrorPlaces
import WindowLayout.Proofs.Engine.ProperPasses
import WindowLayout.Proofs.Tree.Walks
import WindowLayout.Proofs.Placement.GrownGrid
