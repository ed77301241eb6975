import Libcacard.Proofs.RoundTrip
import Libcacard.Proofs.VReaderRefs
import Libcacard.Proofs.Apdu
import Libcacard.Proofs.Passthrough
import Libcacard.Proofs.Signing
import Libcacard.Proofs.Reset
import Libcacard.Proofs.Login
import Libcacard.Proofs.Transfer
import Libcacard.Proofs.Channels
import Libcacard.Proofs.Framing
import Libcacard.Proofs.VscSystem
import Libcacard.Proofs.Link
import Libcacard.Proofs.AcaFormats
import Libcacard.Proofs.AcaLookup
import Libcacard.Proofs.Requests
import Libcacard.Proofs.ReadBuffer
import Libcacard.Proofs.GetProperties
import Libcacard.Proofs.FilePrefix
import Libcacard.Proofs.WriteBack
import Libcacard.Proofs.Clone
import Libcacard.Proofs.OptionStrings
import Libcacard.Proofs.MakeCard
import Libcacard.Proofs.Mirror
import Libcacard.Proofs.RsaOp
import Libcacard.Proofs.DataObjects
import Libcacard.Proofs.ReaderCards
import Libcacard.Proofs.ApduReplies
import Libcacard.Proofs.PendingReader
import Libcacard.Proofs.CardAtr
import Libcacard.Proofs.Pts
import Libcacard.Proofs.PcscReaders
import Libcacard.Proofs.Cplp
import Libcacard.Proofs.EventQueue
import Libcacard.Proofs.EmulRuns
import Libcacard.Proofs.TokenCalls
import Libcacard.Proofs.Console
