import Darkroom.Archive.Diagnostics
import Darkroom.Archive.Settings
import Darkroom.Archive.Sidecar
import Darkroom.Filter.Run
import Darkroom.Hash.Fnv
import Darkroom.History.Report
import Darkroom.Image.Store
import Darkroom.Raster.Folder
import Darkroom.Proofs.Text.Integer
import Darkroom.Proofs.Text.Lines
import Darkroom.Proofs.Text.Percent
import Darkroom.Proofs.Action.Values
import Darkroom.Proofs.Decimal.Packed
import Darkroom.Proofs.Action.Records
import Darkroom.Proofs.Action.RoundTrip
import Darkroom.Proofs.Action.Torn
import Darkroom.Proofs.Decimal.Rounding
import Darkroom.Proofs.Decimal.Nearest
import Darkroom.Proofs.Decimal.Shortest
import Darkroom.Proofs.Filter.Apply
import Darkroom.Proofs.Filter.Parameters
import Darkroom.Proofs.Filter.Run
import Darkroom.Proofs.History.Replay
import Darkroom.Proofs.Arithmetic.Exact
import Darkroom.Proofs.Tone.Cuts
import Darkroom.Proofs.Tone.AutoLevels
import Darkroom.Proofs.Image.WellFormed
import Darkroom.Progress.Crew
import Darkroom.Proofs.Image.Sharing
import Darkroom.Proofs.Progress.Crew
import Darkroom.Image.RowPool
import Darkroom.Tone.Division
import Darkroom.Proofs.Image.RowPool
import Darkroom.Filter.Plan
import Darkroom.Filter.Watched
import Darkroom.Proofs.Filter.Plan
import Darkroom.Proofs.Filter.Lifecycle
import Darkroom.Proofs.Filter.Schedules
import Darkroom.Proofs.Filter.Untouched
import Darkroom.Proofs.History.Steps
import Darkroom.Proofs.History.Exact
import Darkroom.Proofs.Archive.Action
import Darkroom.Proofs.Archive.Sidecar
import Darkroom.Proofs.Json.NotNaN
import Darkroom.Proofs.Action.Settled
import Darkroom.Proofs.Archive.Formats
import Darkroom.Image.Bytes
import Darkroom.Image.Checked
import Darkroom.Filter.Checked
import Darkroom.Proofs.Image.Bytes
import Darkroom.Proofs.Image.Checked
import Darkroom.Proofs.Geometry
import Darkroom.Proofs.Intersection
import Darkroom.Proofs.Image.CheckedMoves
import Darkroom.Proofs.Image.CheckedValues
import Darkroom.Filter.Session
import Darkroom.Proofs.Filter.Checked
import Darkroom.Proofs.Filter.Session
import Darkroom.Proofs.Action.Append
import Darkroom.Proofs.Image.Difference
import Darkroom.Proofs.Image.FirstDifference
import Darkroom.Proofs.History.Verify
import Darkroom.Proofs.History.Timed
import Darkroom.Filter.Stored
import Darkroom.Proofs.Filter.Stored
import Darkroom.Proofs.Filter.Units
import Darkroom.Proofs.Filter.Cancelled
import Darkroom.Proofs.Action.FirstFault
import Darkroom.Proofs.Action.Grammar
import Darkroom.Proofs.Image.Overlap
import Darkroom.Image.Symmetry
import Darkroom.Proofs.Image.Symmetry
import Darkroom.Proofs.Image.Depth
import Darkroom.Proofs.Image.Layered
import Darkroom.Image.Words
import Darkroom.Proofs.Image.Words
import Darkroom.Proofs.Image.Parts
import Darkroom.Proofs.Image.WholeCopy
import Darkroom.Proofs.Tone.Histogram
import Darkroom.Proofs.Tone.Division
import Darkroom.Proofs.Filter.Tables
import Darkroom.Proofs.Tone.Ranks
import Darkroom.Proofs.Tone.Ranges
import Darkroom.Tone.Words
import Darkroom.Proofs.Tone.Words
import Darkroom.Proofs.Filter.Equalize
import Darkroom.Proofs.Filter.Normalize
import Darkroom.Proofs.Filter.FlatLevels
import Darkroom.Proofs.Decimal.Quotient
import Darkroom.Proofs.Balance.Exposure
import Darkroom.Repair.InPlace
import Darkroom.Proofs.Image.Stored
import Darkroom.Proofs.Repair.Neighbours
import Darkroom.Proofs.Repair.Sweep
import Darkroom.Proofs.Repair.InPlace
import Darkroom.Proofs.Repair.Separate
import Darkroom.Proofs.Repair.Mean
import Darkroom.Tone.Curves.Sets
import Darkroom.Tone.Curves.Checked
import Darkroom.Tone.Curves.Tracing
import Darkroom.Proofs.Decimal.WholePart
import Darkroom.Proofs.Tone.Curves.Tracing
import Darkroom.Proofs.Tone.Curves.WellFormed
import Darkroom.Proofs.Tone.Curves.Checked
import Darkroom.Proofs.Tone.Curves.Transfer
import Darkroom.Proofs.Tone.Curves.Drawing
import Darkroom.Proofs.Tone.Curves.Settings
import Darkroom.Proofs.Tone.Curves.Linear
import Darkroom.Proofs.Tone.Curves.Conversion
import Darkroom.Proofs.Image.Sampling
import Darkroom.Proofs.Decimal.Difference
import Darkroom.Proofs.Tone.RoundedCuts
import Darkroom.Proofs.Tone.Forgetting
import Darkroom.Proofs.Raster.Samples
import Darkroom.Proofs.Raster.Library
import Darkroom.Raster.Library
import Darkroom.Proofs.Action.Equality
import Darkroom.Proofs.History.Alike
import Darkroom.Action.Block
import Darkroom.Proofs.Action.Block
import Darkroom.Filter.Catalog
import Darkroom.Proofs.Filter.Catalog
import Darkroom.Proofs.Filter.Complete
import Darkroom.Proofs.Tone.Curves.Stretched
import Darkroom.Proofs.Tone.Contrast
