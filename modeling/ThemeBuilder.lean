import ThemeBuilder.Archive.Reader
import ThemeBuilder.Main
import ThemeBuilder.Proofs.Style.Spacing
import ThemeBuilder.Proofs.Style.Content
import ThemeBuilder.Proofs.Archive.Fields
import ThemeBuilder.Proofs.Archive.RoundTrip
import ThemeBuilder.Proofs.Archive.Dates
import ThemeBuilder.Proofs.FileTree.Frame
import ThemeBuilder.Proofs.FileTree.Creation
import ThemeBuilder.Proofs.Action
import ThemeBuilder.Proofs.FileTree.Children
import ThemeBuilder.Proofs.Text.Suffix
import ThemeBuilder.Proofs.Theme.Packing
import ThemeBuilder.Proofs.FileTree.Descent
import ThemeBuilder.Proofs.Theme.Directory
import ThemeBuilder.Proofs.Theme.Listing
import ThemeBuilder.Proofs.Theme.Build
import ThemeBuilder.Proofs.Style.Layout
import ThemeBuilder.Proofs.Style.Concatenation
import ThemeBuilder.Proofs.Style.Literals
import ThemeBuilder.Proofs.Theme.Interruption
import ThemeBuilder.Proofs.FileTree.Rewriting
import ThemeBuilder.Proofs.Theme.Effect
import ThemeBuilder.Proofs.Theme.Stability
import ThemeBuilder.Proofs.Theme.Batch
import ThemeBuilder.Proofs.Theme.Beside
import ThemeBuilder.Proofs.Invocation.Frame
import ThemeBuilder.Proofs.Theme.Repetition
import ThemeBuilder.Proofs.Invocation.Repetition
import ThemeBuilder.Proofs.Style.Dissection
import ThemeBuilder.Proofs.Style.Residue
import ThemeBuilder.Proofs.CommandLine
import ThemeBuilder.Proofs.Theme.Completion
import ThemeBuilder.Proofs.Invocation.Outcome
import ThemeBuilder.Proofs.Text.Utf8
import ThemeBuilder.Proofs.Theme.Selection
import ThemeBuilder.Proofs.Archive.Calendar
import ThemeBuilder.Proofs.Style.Room
import ThemeBuilder.Proofs.Theme.Times
import ThemeBuilder.Proofs.Style.Recoding
import ThemeBuilder.Proofs.Style.Linewise
import ThemeBuilder.Proofs.Text.Pattern
import ThemeBuilder.Proofs.Theme.Account
import ThemeBuilder.Proofs.Style.Rejoining
import ThemeBuilder.Proofs.Style.Runs
import ThemeBuilder.Proofs.Deflate.Bits
import ThemeBuilder.Proofs.Deflate.Code
import ThemeBuilder.Proofs.Deflate.Stream
import ThemeBuilder.Proofs.Archive.Names
import ThemeBuilder.Proofs.Theme.Compression
import ThemeBuilder.Proofs.Theme.Names
