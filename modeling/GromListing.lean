import GromListing.FileTree
import GromListing.HexFile.Conformance
import GromListing.HexFile.Coverage
import GromListing.HexFile.Written
import GromListing.Instruction.Encoding
import GromListing.Listing.Plain
import GromListing.Main
import GromListing.Operand.Encoding
import GromListing.Proofs.Reader.PrefixCode
import GromListing.Proofs.Reader.CodeWord
import GromListing.Cursor.Call
import GromListing.Proofs.Reader.Run
import GromListing.Proofs.Operand.Encoding
import GromListing.Proofs.Instruction.PrefixCode
import GromListing.Proofs.Reader.Relocation
import GromListing.Image.Range
import GromListing.Proofs.Image.Extent
import GromListing.Proofs.Image.Range
import GromListing.Proofs.Listing.Sweep
import GromListing.Proofs.Listing.Coverage
import GromListing.Instruction.Forms
import GromListing.Proofs.Instruction.Decoding
import GromListing.Proofs.Instruction.Dual
import GromListing.Proofs.Instruction.Move
import GromListing.Proofs.Instruction.Relocation
import GromListing.Proofs.Instruction.Segmentation
import GromListing.Proofs.Listing.Recovery
import GromListing.Proofs.Operand.Text
import GromListing.Instruction.Branch
import GromListing.Proofs.Instruction.Branch
import GromListing.Proofs.Listing.Text
import GromListing.Proofs.Listing.Relocation
import GromListing.Proofs.Listing.Page
import GromListing.Proofs.Text.Pattern
import GromListing.HexFile.Grammar
import GromListing.Proofs.HexFile.Search
import GromListing.Proofs.HexFile.Reading
import GromListing.Proofs.HexFile.Transcript
import GromListing.Proofs.HexFile.Verdict
import GromListing.Proofs.HexFile.Agreement
import GromListing.Proofs.Listing.AddressSpace
import GromListing.Proofs.Listing.Extension
import GromListing.Proofs.HexFile.Corruption
import GromListing.Proofs.HexFile.Acceptance
import GromListing.Proofs.HexFile.Collection
import GromListing.Proofs.HexFile.Merge
import GromListing.Proofs.HexFile.Span
import GromListing.Proofs.HexFile.Grammar
import GromListing.HexFile.CheckedMerge
import GromListing.Proofs.HexFile.InRange
import GromListing.Proofs.HexFile.Overlap
import GromListing.Proofs.Listing.Resync
import GromListing.Proofs.Listing.Announcement
import GromListing.Listing.Column
import GromListing.Proofs.Listing.Column
import GromListing.Image.CheckedSlice
import GromListing.Proofs.Image.Slice
import GromListing.Opcode.Order
import GromListing.Proofs.Opcode.Order
