import VersionRanges.Main
import VersionRanges.Settings.FileTree
import VersionRanges.Proofs.CommandLine.Runs
import VersionRanges.Proofs.Normal.Additions
import VersionRanges.Proofs.Normal.Settling
import VersionRanges.Proofs.Normal.Stability
import VersionRanges.Proofs.Normal.Written
import VersionRanges.Proofs.Order.Separators
import VersionRanges.Proofs.Order.Stages
import VersionRanges.Proofs.Overlap.Built
import VersionRanges.Proofs.Overlap.Exactness
import VersionRanges.Proofs.Overlap.Grouping
import VersionRanges.Proofs.Overlap.Kinds
import VersionRanges.Proofs.Overlap.Pin
import VersionRanges.Proofs.Overlap.Relations
import VersionRanges.Proofs.Overlap.Shared
import VersionRanges.Proofs.Overlap.Symmetry
import VersionRanges.Proofs.Ranges.Carry
import VersionRanges.Proofs.Ranges.Hyphen
import VersionRanges.Proofs.Ranges.Line
import VersionRanges.Proofs.Ranges.LowEnds
import VersionRanges.Proofs.Ranges.Numbers
import VersionRanges.Proofs.Ranges.Rendering
import VersionRanges.Proofs.Ranges.Respelling
import VersionRanges.Proofs.Ranges.Spacing
import VersionRanges.Proofs.Reading.Connectives
import VersionRanges.Proofs.Reading.Division
import VersionRanges.Proofs.Reading.Padding
import VersionRanges.Proofs.Reading.Reference
import VersionRanges.Proofs.Reading.Refusals
import VersionRanges.Proofs.Reading.Undivided
import VersionRanges.Proofs.Selection.Branches
import VersionRanges.Proofs.Selection.Sorting
import VersionRanges.Proofs.Settings.Nearest
