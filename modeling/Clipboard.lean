import Clipboard.Config.Printer
import Clipboard.Main
import Clipboard.Proofs.Handoff.Conversion
import Clipboard.Proofs.Negotiation.Export
import Clipboard.Proofs.Negotiation.Sorted
import Clipboard.Proofs.Transfer.TextRoundTrip
import Clipboard.Proofs.CharReader.AnyBytes
import Clipboard.Proofs.NativeText.Terminator
import Clipboard.Proofs.Transfer.Tail
import Clipboard.Proofs.NativeText.Pieces
import Clipboard.Proofs.Transfer.ImportStream
import Clipboard.Proofs.Transfer.FileExport
import Clipboard.Proofs.FormatTable.Changes
import Clipboard.Proofs.Transfer.FileListFormat
import Clipboard.Proofs.Negotiation.Supported
import Clipboard.Proofs.Ranking.Antisymmetry
import Clipboard.Proofs.Config.Validated
import Clipboard.Proofs.Transfer.TextExport
import Clipboard.Proofs.CharReader.Unicode
import Clipboard.Proofs.Files.UriList
import Clipboard.Proofs.Config.Charsets
import Clipboard.Proofs.Transfer.Shape
import Clipboard.Proofs.CharReader.ToEnd
import Clipboard.Proofs.Ranking.Homogeneous
import Clipboard.Proofs.Reencoder.Failure
import Clipboard.Proofs.Files.DropFiles
import Clipboard.Proofs.Image.Bitmap.RoundTrip
import Clipboard.Proofs.Mime.Spelling
import Clipboard.Proofs.Flavor.RoundTrip
import Clipboard.Proofs.Transfer.Locale
import Clipboard.Proofs.Handoff.Slot
import Clipboard.Proofs.Ranking.Charsets
import Clipboard.Proofs.Charset.Single
import Clipboard.Proofs.Image.Bitmap.File
import Clipboard.Proofs.Inspect
import Clipboard.Proofs.NativeText.Scan
import Clipboard.Proofs.Object
import Clipboard.Proofs.CharReader.Progress
