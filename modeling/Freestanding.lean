import Freestanding.Binary64.Basic
import Freestanding.Binary64.Fixed
import Freestanding.Binary64.Nearest
import Freestanding.Binary64.Reading
import Freestanding.Binary64.Shortest
import Freestanding.Bytes.Basic
import Freestanding.Bytes.Buffer
import Freestanding.Bytes.Order
import Freestanding.Bytes.Search
import Freestanding.Bytes.Tokens
import Freestanding.Calendar.DateTime
import Freestanding.Calendar.Template
import Freestanding.Calendar.Year
import Freestanding.Command.Basic
import Freestanding.Command.Line
import Freestanding.Command.Run
import Freestanding.Command.Script
import Freestanding.Command.Timing
import Freestanding.Digest
import Freestanding.Elementary.Circular
import Freestanding.Elementary.Exponential
import Freestanding.Elementary.Root
import Freestanding.Elementary.Rounding
import Freestanding.Format.Argument
import Freestanding.Format.Destination
import Freestanding.Format.Directive
import Freestanding.Format.Field
import Freestanding.Format.Template
import Freestanding.Generator
import Freestanding.Heap.Arena
import Freestanding.Heap.Basic
import Freestanding.Heap.Block
import Freestanding.Heap.Check
import Freestanding.Heap.Header
import Freestanding.Heap.Layout
import Freestanding.Heap.Links
import Freestanding.Heap.Memory
import Freestanding.Heap.Metered
import Freestanding.Heap.Operations
import Freestanding.Heap.Region
import Freestanding.Heap.Stats
import Freestanding.Heap.Store
import Freestanding.Log
import Freestanding.Main
import Freestanding.Numeral.Destination
import Freestanding.Numeral.Digit
import Freestanding.Numeral.Integer
import Freestanding.Numeral.Real
import Freestanding.Numeral.RealText
import Freestanding.Scan.Field
import Freestanding.Scan.Item
import Freestanding.Scan.Run
import Freestanding.Scan.Value
import Freestanding.SystemError
import Freestanding.Text.Column
import Freestanding.Text.DecimalDigit
import Freestanding.Text.Number
import Freestanding.Text.Printable
import Freestanding.Text.Quoted
import Freestanding.Text.Utf8
import Freestanding.Word
import Freestanding.Proofs.Binary64.Canonical
import Freestanding.Proofs.Binary64.Tenfold
import Freestanding.Proofs.Bytes.Buffer
import Freestanding.Proofs.Bytes.Order
import Freestanding.Proofs.Bytes.Tokens
import Freestanding.Proofs.Calendar.Days
import Freestanding.Proofs.Calendar.Epoch
import Freestanding.Proofs.Calendar.Exact
import Freestanding.Proofs.Calendar.Normal
import Freestanding.Proofs.Calendar.Order
import Freestanding.Proofs.Calendar.Weeks
import Freestanding.Proofs.Command.DateText
import Freestanding.Proofs.Command.Handles
import Freestanding.Proofs.Command.Words
import Freestanding.Proofs.Digest
import Freestanding.Proofs.Format.Append
import Freestanding.Proofs.Format.Cut
import Freestanding.Proofs.Format.Destination
import Freestanding.Proofs.Format.Grammar
import Freestanding.Proofs.Format.Integer
import Freestanding.Proofs.Format.Precision
import Freestanding.Proofs.Format.RoundTrip
import Freestanding.Proofs.Format.Takers
import Freestanding.Proofs.Format.Verbatim
import Freestanding.Proofs.Generator
import Freestanding.Proofs.Heap.Accounts
import Freestanding.Proofs.Heap.Allocation
import Freestanding.Proofs.Heap.Arrangement
import Freestanding.Proofs.Heap.Canonical
import Freestanding.Proofs.Heap.Change
import Freestanding.Proofs.Heap.Check
import Freestanding.Proofs.Heap.Coalescing
import Freestanding.Proofs.Heap.Contents
import Freestanding.Proofs.Heap.Failure
import Freestanding.Proofs.Heap.FreeOrder
import Freestanding.Proofs.Heap.Growth
import Freestanding.Proofs.Heap.Layout
import Freestanding.Proofs.Heap.Ledger
import Freestanding.Proofs.Heap.Linked
import Freestanding.Proofs.Heap.Lookup
import Freestanding.Proofs.Heap.Memory
import Freestanding.Proofs.Heap.Request
import Freestanding.Proofs.Heap.Run
import Freestanding.Proofs.Heap.Search
import Freestanding.Proofs.Heap.Store
import Freestanding.Proofs.Heap.Undo
import Freestanding.Proofs.Heap.Verdict
import Freestanding.Proofs.Numeral.Destination
import Freestanding.Proofs.Numeral.Digits
import Freestanding.Proofs.Numeral.Longest
import Freestanding.Proofs.Numeral.Reading
import Freestanding.Proofs.Numeral.RealText
import Freestanding.Proofs.Numeral.Spelling
import Freestanding.Proofs.Scan.Printed
import Freestanding.Proofs.Scan.RoundTrip
import Freestanding.Proofs.Scan.Suppression
import Freestanding.Proofs.Scan.Trail
import Freestanding.Proofs.Scan.Walk
