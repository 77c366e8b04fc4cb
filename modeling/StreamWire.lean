import StreamWire.Bytes
import StreamWire.Number
import StreamWire.Number.Decimal
import StreamWire.Number.Hexadecimal
import StreamWire.Text.Utf8
import StreamWire.Wire
import StreamWire.Kind
import StreamWire.Fault
import StreamWire.Writer
import StreamWire.StreamId
import StreamWire.Header
import StreamWire.Frame
import StreamWire.Frame.Encoding
import StreamWire.Frame.Layout
import StreamWire.Frame.Decoding
import StreamWire.Message.Fragments
import StreamWire.Message.Assembler
import StreamWire.Inbound.ChunkQueue
import StreamWire.Inbound.Deframer
import StreamWire.Notice
import StreamWire.Inbound.Session
import StreamWire.Link
import StreamWire.Proofs.BigEndian
import StreamWire.Proofs.Header
import StreamWire.Proofs.Writer
import StreamWire.Proofs.Frame.Parts
import StreamWire.Proofs.Frame.Layout
import StreamWire.Proofs.Frame.RoundTrip
import StreamWire.Proofs.Frame.Readers
import StreamWire.Proofs.Frame.Position
import StreamWire.Proofs.Frame.Grammar
import StreamWire.Proofs.Frame.Sections
import StreamWire.Proofs.Frame.WireForm
import StreamWire.Proofs.Inbound.ChunkQueue
import StreamWire.Proofs.Inbound.Inlet
import StreamWire.Proofs.Inbound.Announcement
import StreamWire.Proofs.Inbound.Chunking
import StreamWire.Proofs.Message.Pieces
import StreamWire.Proofs.Message.Reassembly
import StreamWire.Proofs.Link.Delimited
import StreamWire.Proofs.Link.Transport
import StreamWire.Proofs.Message.Transcript
import StreamWire.Proofs.Message.Independence
import StreamWire.Proofs.Message.Gathering
import StreamWire.Proofs.Message.Delivery
import StreamWire.Proofs.Inbound.Moment
import StreamWire.Proofs.Inbound.Reentrancy
import StreamWire.Proofs.Inbound.Finality
import StreamWire.Proofs.Inbound.Accounting
import StreamWire.Proofs.Link.Stream
import StreamWire.Proofs.Frame.Demands
import StreamWire.Proofs.Message.SingleChain
import StreamWire.Proofs.Message.ChainTable
import StreamWire.Proofs.Message.Restriction
import StreamWire.Proofs.Inbound.Judgement
import StreamWire.Proofs.Inbound.Balance
import StreamWire.Proofs.Message.SizeLimit
import StreamWire.Proofs.Message.Packing
import StreamWire.Proofs.Message.Refusals
import StreamWire.Proofs.Message.FragmentSize
import StreamWire.Proofs.Header.RoundTrip
import StreamWire.Proofs.Frame.Truncation
import StreamWire.Proofs.Inbound.Copying
import StreamWire.Proofs.Text.Sequence
import StreamWire.Proofs.Text.Reading
import StreamWire.Proofs.Frame.ErrorMessage
import StreamWire.Proofs.Message.Splitting
import StreamWire.Proofs.Frame.InPlace
