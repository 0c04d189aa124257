import Bandchain.App.DeliverTx
import Bandchain.Bandlib.Batching
import Bandchain.Bank.BurnCoins
import Bandchain.Db.DataSources
import Bandchain.Obi.Agreement
import Bandchain.Obi.JavaScriptCodec
import Bandchain.Obi.JavaScriptObi
import Bandchain.Obi.ParserAgreement
import Bandchain.Obi.Parsing
import Bandchain.Obi.PythonCodec
import Bandchain.Obi.Solidity
import Bandchain.Obi.SolidityBytes
import Bandchain.Obi.SoliditySigned
import Bandchain.Oracle.Admission
import Bandchain.Oracle.Commitment
import Bandchain.Oracle.Deadline
import Bandchain.Oracle.Expiry
import Bandchain.Oracle.Flags
import Bandchain.Oracle.Infractions
import Bandchain.Oracle.Lifecycle
import Bandchain.Oracle.Migration
import Bandchain.Oracle.Reordering
import Bandchain.Oracle.Reporters
import Bandchain.Oracle.Reporting
import Bandchain.Oracle.Responses
import Bandchain.Oracle.Restart
import Bandchain.Oracle.Selection
import Bandchain.Oracle.StoreKeys
import Bandchain.Oracle.Uploads
import Bandchain.Oracled.Reports
import Bandchain.Owasm.Ext
import Bandchain.Owasm.Host
import Bandchain.Owasm.Script
import Bandchain.Bridge.Bot
import Bandchain.Bridge.Acceptance
import Bandchain.Bridge.Headers
import Bandchain.Bridge.Precommit
import Bandchain.Bridge.ProofPackets
import Bandchain.Bridge.Soundness
import Bandchain.Bridge.Varint
import Bandchain.Bridge.BandChainLib
import Bandchain.Bridge.Signatures
