import SolanaSdk.Registers
import SolanaSdk.RankedBlocks
import SolanaSdk.Varints
import SolanaSdk.LucasPrimes
import SolanaSdk.TwistedEdwards
import SolanaSdk.PublicKeys
import SolanaSdk.Edwards25519
import SolanaSdk.ProgramAddresses
import SolanaSdk.BumpSearch
import SolanaSdk.Instructions
import SolanaSdk.LegacyMessage
import SolanaSdk.LegacyLayout
import SolanaSdk.VersionedMessage
import SolanaSdk.VersionedRouting
import SolanaSdk.VersionedLayout
import SolanaSdk.VersionedResolution
import SolanaSdk.VersionedPrivileges
import SolanaSdk.TableCompression
import SolanaSdk.LittleEndian
import SolanaSdk.LookupTableAccounts
import SolanaSdk.WideTables
import SolanaSdk.Wire
import SolanaSdk.Transactions
import SolanaSdk.SignedMessage
import SolanaSdk.SigningCompleteness
import SolanaSdk.CompilerAgreement
import SolanaSdk.PositionalDigits
import SolanaSdk.Base58Inverse
import SolanaSdk.Decoders
import SolanaSdk.WireDecoding
import SolanaSdk.EnvelopeDecoding
import SolanaSdk.NarrowedNumbers
import SolanaSdk.SystemProgram
import SolanaSdk.SystemProgramDecoding
import SolanaSdk.SigningRuns
import SolanaSdk.Base64
import SolanaSdk.DecoderArithmetic
import SolanaSdk.Loops
import SolanaSdk.Base58Buffer
import SolanaSdk.Segments
import SolanaSdk.Nesting
import SolanaSdk.JsonText
import SolanaSdk.JsonScanners
import SolanaSdk.JsonTokens
import SolanaSdk.JsonAccess
import SolanaSdk.JsonBounds
import SolanaSdk.JsonTermination
import SolanaSdk.JsonGrammar
import SolanaSdk.JsonScanning
import SolanaSdk.JsonBrackets
import SolanaSdk.JsonPlaces
import SolanaSdk.JsonContainers
import SolanaSdk.JsonNavigation
import SolanaSdk.JsonDocuments
import SolanaSdk.JsonTexts
import SolanaSdk.Endpoints
import SolanaSdk.StringDecoding
import SolanaSdk.NumberReads
import SolanaSdk.JsonCuts
import SolanaSdk.JsonCutContainers
import SolanaSdk.JsonCutNavigation
import SolanaSdk.Truncation
import SolanaSdk.RpcClient
import SolanaSdk.AccountResponses
import SolanaSdk.RpcErrors
import SolanaSdk.KeyStretching
import SolanaSdk.Streams
import SolanaSdk.TextLines
import SolanaSdk.HttpRequests
import SolanaSdk.HttpTransport
import SolanaSdk.HttpExchanges
import SolanaSdk.JsonWriting
import SolanaSdk.RpcRequests
import SolanaSdk.RemoteCalls
import SolanaSdk.Confirmation
import SolanaSdk.ProgramCalls
import SolanaSdk.Delivery
import SolanaSdk.Submission
import SolanaSdk.LookupFetching
import SolanaSdk.Recompilation
import SolanaSdk.KeyTexts
import SolanaSdk.SeededAddresses
import SolanaSdk.Wallets
import SolanaSdk.Repacking
import SolanaSdk.Base64Reading
import SolanaSdk.TableSavings
import SolanaSdk.JobLedgers
import SolanaSdk.Payments
import SolanaSdk.Acceptance
import SolanaSdk.TablePruning
