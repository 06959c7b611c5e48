import Glance.CommandLine
import Glance.CommandLine.Options
import Glance.Config
import Glance.Disk
import Glance.Document
import Glance.File
import Glance.Folder
import Glance.Image
import Glance.Image.Bmp
import Glance.Image.Bytes
import Glance.Image.Format
import Glance.Image.Gif
import Glance.Image.Png
import Glance.Image.Png.Chunk
import Glance.Image.Png.Header
import Glance.Image.Zlib
import Glance.Image.Zlib.BitStream
import Glance.Image.Zlib.Block
import Glance.Image.Zlib.PrefixCode
import Glance.Json
import Glance.Json.Parser
import Glance.Json.Printer
import Glance.Language
import Glance.Main
import Glance.Markup
import Glance.Navigator
import Glance.Neighbor
import Glance.Number.Binary
import Glance.Number.Decimal
import Glance.Number.Digit
import Glance.Number.Rounding
import Glance.Page
import Glance.Path
import Glance.Preferences
import Glance.Proofs.Document
import Glance.Proofs.Markup.Line
import Glance.Proofs.Markup.Marks
import Glance.Proofs.Markup.Reader
import Glance.Proofs.Number.Widening
import Glance.Proofs.Page.Marks
import Glance.Proofs.Page.Render
import Glance.Proofs.Page.Rows
import Glance.Proofs.Preferences
import Glance.Proofs.Recents
import Glance.Proofs.Search.Hits
import Glance.Proofs.Token.First
import Glance.Proofs.Token.Fits
import Glance.Proofs.Token.Grammar
import Glance.Proofs.Token.Tiling
import Glance.Proofs.Token.Unique
import Glance.Proofs.Token.Words
import Glance.Proofs.Viewer.Request
import Glance.Proofs.Viewer.Resume
import Glance.Proofs.Viewer.SearchState
import Glance.Recents
import Glance.Search
import Glance.Session
import Glance.Store
import Glance.Text.LetterCase
import Glance.Text.Utf8
import Glance.Text.WordChar
import Glance.Theme
import Glance.Token
import Glance.Token.Scan
import Glance.Toml
import Glance.Toml.Parser
import Glance.Toml.Quoted
import Glance.Toml.Scalar
import Glance.Viewer
import Glance.Proofs.Page.LineByLine
import Glance.Proofs.Viewer.Opening
import Glance.Proofs.Recents.History
import Glance.Proofs.Neighbor
import Glance.Proofs.Viewer.Folder
import Glance.Proofs.Preferences.Typed
import Glance.Proofs.Folder
import Glance.Proofs.Text.Utf8
import Glance.Proofs.Viewer.Unstored
import Glance.Proofs.Viewer.Limits
import Glance.Proofs.Markup.Slices
import Glance.Proofs.Markup.Shown
import Glance.Proofs.Markup.Intact
import Glance.Proofs.Json.Members
import Glance.Proofs.Json.Numbers
import Glance.Proofs.Json.Strings
import Glance.Proofs.Json.Readable
import Glance.Proofs.Disk
import Glance.Proofs.Store
import Glance.Proofs.Document.Positions
import Glance.Proofs.Viewer.Query
import Glance.Proofs.Page.Nesting
import Glance.Proofs.Markup.Tags
import Glance.Proofs.Page.Emphasis
import Glance.Proofs.Viewer.Scroll
import Glance.Proofs.Search.Leftmost
import Glance.Proofs.Viewer.Zoom
import Glance.Proofs.Viewer.Remembers
import Glance.Proofs.Viewer.SideBySide
import Glance.Proofs.Markup.Stripped
import Glance.Proofs.Markup.Faithful
import Glance.Proofs.Token.Depth
import Glance.Proofs.Neighbor.Cycle
import Glance.Proofs.Path
import Glance.Proofs.Disk.Listing
import Glance.Proofs.Viewer.Kinds
import Glance.Proofs.Path.Parent
import Glance.Proofs.Disk.Folders
import Glance.Proofs.Disk.Beside
import Glance.Proofs.Disk.Made
import Glance.Proofs.Store.Failed
import Glance.Proofs.Text.Lossless
import Glance.Proofs.Viewer.Lossy
import Glance.Proofs.Preferences.Tolerant
import Glance.Proofs.Toml.Words
import Glance.Proofs.Toml.Sections
import Glance.Proofs.Config
import Glance.Proofs.Config.Saving
import Glance.Proofs.Navigator.Moves
import Glance.Proofs.Theme
import Glance.Proofs.Number.Ordered
import Glance.Proofs.Number.Finite
import Glance.Proofs.Number.Shortest
import Glance.Proofs.Json.Scaling
import Glance.Proofs.Json.Floats
import Glance.Proofs.Store.Kept
import Glance.Proofs.Store.Accepting
import Glance.Proofs.Number.Nearest
