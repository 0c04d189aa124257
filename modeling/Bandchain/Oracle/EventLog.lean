import Bandchain.Lib.Decimal
import Bandchain.Oracle.World

/-!
# Events outside the chain

What programs outside the chain see of its events: types, keys and values are texts.  The text of
an address is a parameter.
-/

namespace Bandchain.Oracle

/-- An event as the node returns it. -/
structure AbciEvent where
  type : String
  attributes : List (String × Bytes)
deriving DecidableEq, Repr

/-- The text of an attribute. -/
def AttrValue.toText (bech32 : Bytes → Bytes) : AttrValue → Bytes
  | .text b => b
  | .dec n => Decimal.print n
  | .hex b => Bytes.hex b
  | .addr a => bech32 a

def Event.toAbci (bech32 : Bytes → Bytes) (e : Event) : AbciEvent where
  type := e.type
  attributes := e.attributes.map fun kv => (kv.1, kv.2.toText bech32)

/-- The events among some calls. -/
def emitted (t : List Call) : List Event :=
  t.filterMap fun
    | .event e => some e
    | _ => none

end Bandchain.Oracle
