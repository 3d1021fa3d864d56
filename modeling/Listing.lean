import Listing.Main
import Listing.Proofs.BlockGraph.Elements
import Listing.Proofs.BlockGraph.EntryName
import Listing.Proofs.BlockGraph.Identifiers
import Listing.Proofs.BlockGraph.Quotation
import Listing.Proofs.BlockGraph.Reachability
import Listing.Proofs.BlockGraph.Verbatim
import Listing.Proofs.CommandLine.CaptureSinks
import Listing.Proofs.CommandLine.ExportFiles
import Listing.Proofs.Event.JsonLines
import Listing.Proofs.Event.LogRoundTrip
import Listing.Proofs.External.Complaint
import Listing.Proofs.Machine.Table
import Listing.Proofs.Recorder.Dump
import Listing.Proofs.Recorder.File
import Listing.Proofs.Recorder.Naming
import Listing.Proofs.Recorder.Truncation
import Listing.Proofs.Stream.Immediates
import Listing.Proofs.Stream.Inverse
import Listing.Proofs.Stream.Origin
import Listing.Proofs.Symbol.Spelling
