import SectionArchive.Bytes
import SectionArchive.Checksum.Adler32
import SectionArchive.Checksum.Crc32
import SectionArchive.Checksum.Crc64
import SectionArchive.Checksum.Kind
import SectionArchive.Checksum.Sha256
import SectionArchive.Checksum.Weak
import SectionArchive.Codec
import SectionArchive.CommandLine.Console
import SectionArchive.CommandLine.Diagnostic
import SectionArchive.CommandLine.Footprint
import SectionArchive.CommandLine.Grammar
import SectionArchive.CommandLine.Report
import SectionArchive.CommandLine.Request
import SectionArchive.CommandLine.Run
import SectionArchive.Container.Basic
import SectionArchive.Container.Save
import SectionArchive.Deflate.Alphabet
import SectionArchive.Deflate.Bits
import SectionArchive.Deflate.Huffman
import SectionArchive.Deflate.Inflate
import SectionArchive.Deflate.Zlib
import SectionArchive.Directory
import SectionArchive.Error
import SectionArchive.Fault
import SectionArchive.Files.FileContainer
import SectionArchive.Files.Path
import SectionArchive.Files.WorkingDirectory
import SectionArchive.Format.Flags
import SectionArchive.Format.MainHeader
import SectionArchive.Format.SectionHeader
import SectionArchive.Lzma.Chunks
import SectionArchive.Lzma.Pack
import SectionArchive.Lzma.Packet
import SectionArchive.Lzma.Program
import SectionArchive.Lzma.RangeDecoder
import SectionArchive.Lzma.RangeEncoder
import SectionArchive.Main
import SectionArchive.Options
import SectionArchive.Proofs.ChunkRoundTrip
import SectionArchive.Proofs.CodecRoundTrip
import SectionArchive.Proofs.FaultFreeStorage
import SectionArchive.Proofs.FixedCodes
import SectionArchive.Proofs.HeaderFields
import SectionArchive.Proofs.InStep
import SectionArchive.Proofs.InflateSteps
import SectionArchive.Proofs.Ledger
import SectionArchive.Proofs.LedgerAgreement
import SectionArchive.Proofs.LedgerEntries
import SectionArchive.Proofs.Loading
import SectionArchive.Proofs.Numbers
import SectionArchive.Proofs.Opening
import SectionArchive.Proofs.Operations
import SectionArchive.Proofs.PacketAnswers
import SectionArchive.Proofs.PacketRuns
import SectionArchive.Proofs.RangeAgreement
import SectionArchive.Proofs.RangeInterval
import SectionArchive.Proofs.SavedImage
import SectionArchive.Proofs.Saving
import SectionArchive.Proofs.SectionReading
import SectionArchive.Proofs.SectionRoundTrip
import SectionArchive.Proofs.Spelling
import SectionArchive.Proofs.Writing
import SectionArchive.Proofs.XzRoundTrip
import SectionArchive.Proofs.ZlibRoundTrip
import SectionArchive.Section.Encoding
import SectionArchive.Section.Payload
import SectionArchive.Section.Reading
import SectionArchive.Storage
import SectionArchive.Stream.Decoding
import SectionArchive.Stream.Delivery
import SectionArchive.Stream.Lz77
import SectionArchive.Stream.Sink
import SectionArchive.Stream.Source
import SectionArchive.Text.Digits
import SectionArchive.Text.Json
import SectionArchive.Text.LetterCase
import SectionArchive.Text.Numeral
import SectionArchive.Text.Printable
import SectionArchive.Text.Quoted
import SectionArchive.Xz.Block
import SectionArchive.Xz.Encoding
import SectionArchive.Xz.Framing
import SectionArchive.Xz.Reader
import SectionArchive.Xz.Stream
import SectionArchive.Proofs.Streaming
import SectionArchive.Proofs.FailedSaving
import SectionArchive.Proofs.Retrying
import SectionArchive.Proofs.ChecksumChanges
import SectionArchive.Proofs.FlippedHeaders
import SectionArchive.Proofs.FlippedPayloads
import SectionArchive.Proofs.Evolution
import SectionArchive.Proofs.CleanPayloads
import SectionArchive.Proofs.Obstacles
import SectionArchive.Proofs.PathsBelow
import SectionArchive.Proofs.Commands
import SectionArchive.Proofs.Packing
import SectionArchive.Proofs.Extracting
import SectionArchive.Proofs.PackAndExtract
import SectionArchive.Proofs.Leftovers
import SectionArchive.Proofs.FailedExtraction
import SectionArchive.Proofs.Admission
import SectionArchive.Proofs.Truncation
import SectionArchive.Proofs.HeaderUpdates
import SectionArchive.Proofs.StreamSoundness
import SectionArchive.Proofs.Wrapping
import SectionArchive.Proofs.BoundedUnpacking
import SectionArchive.Proofs.FailingSinks
import SectionArchive.Proofs.Preamble
import SectionArchive.Proofs.LeadingHeader
import SectionArchive.Proofs.ShortBursts
import SectionArchive.Proofs.PayloadFiles
import SectionArchive.Proofs.BoundedDirectory
import SectionArchive.Proofs.LocalOperations
import SectionArchive.Proofs.ReferenceChecksums
import SectionArchive.Proofs.Slips
