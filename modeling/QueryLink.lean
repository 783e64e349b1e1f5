import QueryLink.Script.Run
import QueryLink.Value.Encode
import QueryLink.Value.Time
import QueryLink.Proofs.Abandonment
import QueryLink.Proofs.AddressGrammar
import QueryLink.Proofs.Backpressure
import QueryLink.Proofs.BitPacking
import QueryLink.Proofs.BoxTableRuns
import QueryLink.Proofs.CanonicalDecimal
import QueryLink.Proofs.ClosingStream
import QueryLink.Proofs.Correlation
import QueryLink.Proofs.DecimalText
import QueryLink.Proofs.DecimalWire
import QueryLink.Proofs.Endings
import QueryLink.Proofs.FrameFaults
import QueryLink.Proofs.FrameStream
import QueryLink.Proofs.PromiseRuns
import QueryLink.Proofs.ReaderSafety
import QueryLink.Proofs.Reassembly
import QueryLink.Proofs.RequestEnvelope
import QueryLink.Proofs.SessionEnd
import QueryLink.Proofs.SkipValue
import QueryLink.Proofs.StreamTraffic
import QueryLink.Proofs.SubmissionOrder
import QueryLink.Proofs.TimeConversion
import QueryLink.Proofs.Truncation
import QueryLink.Proofs.ValueRoundTrip
import QueryLink.Proofs.VarintLaws
