import Telemetry.Value.Text
import Telemetry.ByteOrder
import Telemetry.Checksum
import Telemetry.Fingerprint
import Telemetry.Codec
import Telemetry.Schema.Dialect
import Telemetry.Frame.Packet
import Telemetry.Frame.Receiver
import Telemetry.Dialect.Set
import Telemetry.Dialect.Tables
import Telemetry.Dispatch.Dump
import Telemetry.Dispatch.Stream
import Telemetry.Source.Fault
import Telemetry.Source.Grammar
import Telemetry.CompileError
import Telemetry.Source.Dialect
import Telemetry.Template.Text
import Telemetry.Generate.Access
import Telemetry.Generate.Emission
import Telemetry.Generate.Run
import Telemetry.Capture.Datagram
import Telemetry.Capture.File
import Telemetry.Capture.Summary
import Telemetry.Command.Arguments
import Telemetry.Command.Decode
import Telemetry.Command.Generate
import Telemetry.Files.Tree
import Telemetry.Main
import Telemetry.Proofs.Parse
import Telemetry.Proofs.Receiver
import Telemetry.Proofs.Resync
import Telemetry.Proofs.Chunking
import Telemetry.Proofs.Except
import Telemetry.Proofs.Utf8
import Telemetry.Proofs.Layout
import Telemetry.Proofs.RoundTrip
import Telemetry.Proofs.Dispatch
import Telemetry.Proofs.Delivery
import Telemetry.Proofs.Checksum
import Telemetry.Proofs.Framing
import Telemetry.Proofs.Corruption
import Telemetry.Proofs.Accounting
import Telemetry.Proofs.Planning
import Telemetry.Proofs.Decoding
import Telemetry.Proofs.Evolution
import Telemetry.Proofs.Classification
import Telemetry.Proofs.Closure
import Telemetry.Proofs.Rendering
import Telemetry.Proofs.Generation
import Telemetry.Proofs.Readers
import Telemetry.Proofs.Writing
import Telemetry.Proofs.Description
import Telemetry.Proofs.Acceptance
import Telemetry.Proofs.Statements
import Telemetry.Proofs.GeneratedCodec
import Telemetry.Proofs.Files
import Telemetry.Proofs.Emissions
import Telemetry.Proofs.Comments
import Telemetry.Proofs.Leeway
import Telemetry.Proofs.Erasure
import Telemetry.Proofs.Tiling
import Telemetry.Proofs.Registration
import Telemetry.Proofs.Reachability
import Telemetry.Proofs.Lines
import Telemetry.Proofs.References
import Telemetry.Proofs.Locality
import Telemetry.Proofs.Truncation
import Telemetry.Proofs.Reencoding
import Telemetry.Proofs.Domain
import Telemetry.Proofs.TextSlots
import Telemetry.Proofs.StableOrder
import Telemetry.Proofs.Declarations
import Telemetry.Proofs.IncludeOrder
import Telemetry.Proofs.Prefixes
import Telemetry.Proofs.Statistics
import Telemetry.Proofs.Workers
import Telemetry.Proofs.Fingerprints
import Telemetry.Proofs.Waiting
import Telemetry.Proofs.TemplateText
import Telemetry.Proofs.Evaluation
import Telemetry.Proofs.TemplateFaults
import Telemetry.Proofs.NameClashes
import Telemetry.Proofs.BitSerial
import Telemetry.Proofs.Datagrams
import Telemetry.Proofs.Losses
import Telemetry.Proofs.Putting
