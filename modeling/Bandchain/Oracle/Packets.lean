import Bandchain.Lib.Sha256
import Bandchain.Obi.Encode
import Bandchain.Oracle.Types

/-!
# The result commitment

`CalculateResultHash` commits to a request packet and a response packet: both are encoded
field by field in OBI, hashed, and the two digests are hashed together.
-/

namespace Bandchain.Oracle

/-- The fields of a request packet, in the order in which they are declared. -/
def OracleRequestPacketData.toObi (p : OracleRequestPacketData) : Obi.Value :=
  .struct [.string p.clientID, .int64 (Int64.ofInt p.oracleScriptID), .bytes p.calldata,
    .uint64 p.askCount, .uint64 p.minCount]

/-- The fields of a response packet, in the order in which they are declared. -/
def OracleResponsePacketData.toObi (p : OracleResponsePacketData) : Obi.Value :=
  .struct [.string p.clientID, .int64 (Int64.ofInt p.requestID), .uint64 p.ansCount,
    .int64 (Int64.ofInt p.requestTime), .int64 (Int64.ofInt p.resolveTime),
    .int32 (Int32.ofInt p.resolveStatus.toNat), .bytes p.result]

/-- `obi.MustEncode` on a packet: neither packet has a field that OBI refuses. -/
def mustEncode (v : Obi.Value) : Bytes := (Obi.encode v).toOption.getD []

lemma encode_request (p : OracleRequestPacketData) :
    Obi.encode p.toObi = .ok (mustEncode p.toObi) := by
  rfl

lemma encode_response (p : OracleResponsePacketData) :
    Obi.encode p.toObi = .ok (mustEncode p.toObi) := by
  rfl

/-- The hash of the two packet hashes. -/
def calculateResultHash (req : OracleRequestPacketData) (res : OracleResponsePacketData) : Bytes :=
  sha256 (sha256 (mustEncode req.toObi) ++ sha256 (mustEncode res.toObi))

end Bandchain.Oracle
