import Bandchain.Lib.Run
import Bandchain.Oracle.Genesis
import Bandchain.Oracle.Handler

/-!
# The chain

The oracle module as a transition system.  A step begins a block, delivers a message, lets
another module change what the oracle keeper reads, or ends a block.  A transaction with
several messages is the sequence of its messages if it succeeds; if it fails, only the files
it wrote remain.
-/

namespace Bandchain.Oracle

open Exec

/-- What a transaction asks of the oracle module. -/
inductive Msg
  | createDataSource (m : MsgCreateDataSource)
  | editDataSource (m : MsgEditDataSource)
  | createOracleScript (m : MsgCreateOracleScript)
  | editOracleScript (m : MsgEditOracleScript)
  | requestData (m : MsgRequestData)
  | reportData (m : MsgReportData)
  | addReporter (m : MsgAddReporter)
  | removeReporter (m : MsgRemoveReporter)
  /-- A packet that the IBC module hands over. -/
  | recvPacket (p : RecvPacket)
deriving DecidableEq

def Msg.validateBasic : Msg → Except Err Unit
  | createDataSource m => m.validateBasic
  | editDataSource m => m.validateBasic
  | createOracleScript m => m.validateBasic
  | editOracleScript m => m.validateBasic
  | requestData m => m.validateBasic
  | reportData m => m.validateBasic
  | addReporter m => m.validateBasic
  | removeReporter m => m.validateBasic
  -- no check of the oracle module is made on the data of a packet
  | recvPacket _ => .ok ()

/-- `NewHandler`, and the IBC callback. -/
def Msg.handle (k : Keeper) : Msg → OracleM Unit
  | createDataSource m => handleMsgCreateDataSource k m
  | editDataSource m => handleMsgEditDataSource k m
  | createOracleScript m => handleMsgCreateOracleScript k m
  | editOracleScript m => handleMsgEditOracleScript k m
  | requestData m => handleMsgRequestData k m
  | reportData m => handleMsgReportData m
  | addReporter m => handleMsgAddReporter m
  | removeReporter m => handleMsgRemoveReporter m
  | recvPacket p => onRecvPacket k p

/-- Deliver a message.  A failed delivery is rolled back, but the files it wrote stay. -/
def deliver (k : Keeper) (m : Msg) (w : World) : World :=
  match m.validateBasic with
  | .error _ => w
  | .ok _ =>
    match (m.handle k).run w with
    | .ok _ w' => w'
    | .error _ w' => { w with files := w'.files }

inductive Label
  /-- A new block starts, at a greater height than the one before. -/
  | beginBlock (header : Header)
  | deliver (m : Msg)
  /-- A transaction that is rolled back wrote a file. -/
  | writeFile (data : Bytes)
  /-- A governance proposal changes the parameters. -/
  | updateParams (params : Params)
  /-- The staking module changes the validators. -/
  | updateStaking (staking : Staking)
  /-- The IBC module changes the channels. -/
  | updateChannels (channels : Channels)
  | endBlock

/-- One step of the chain; there is none if the block does not come after the one before, if
the new parameters are not valid, or if the end of the block panics. -/
def next (k : Keeper) : Label → World → Option World
  | .beginBlock header, w =>
    if w.header.height < header.height then some { w with header := header } else none
  | .deliver m, w => some (deliver k m w)
  | .writeFile data, w => some { w with files := w.files.addFile data }
  | .updateParams params, w =>
    if params.validate then some { w with store := { w.store with params := params } } else none
  | .updateStaking staking, w => some { w with staking := staking }
  | .updateChannels channels, w => some { w with channels := channels }
  | .endBlock, w =>
    match (handleEndBlock k).run w with
    | .ok _ w' => some w'
    | .error _ _ => none

/-- The steps of the chain. -/
abbrev Step (k : Keeper) : World → Label → World → Prop := stepOf (next k)

/-- A block ends if the work at its end does not panic. -/
lemma step_endBlock_iff {k : Keeper} {w w' : World} :
    Step k w .endBlock w' ↔ (handleEndBlock k).run w = .ok () w' := by
  show (match (handleEndBlock k).run w with
    | .ok _ w' => some w'
    | .error _ _ => none) = some w' ↔ _
  cases (handleEndBlock k).run w <;> simp

/-- A chain that starts from a genesis state.  The other modules, the header and the files
on disk are arbitrary. -/
def Starts (data : GenesisState) (w : World) : Prop := w.store = initGenesis data ∧ w.trace = []

/-- The worlds that a chain started from the default genesis state can reach. -/
abbrev ReachableWorld (k : Keeper) : World → Prop :=
  Reachable (Step k) (Starts defaultGenesisState)

/-! ## A small chain

Two validators and two Wasm modules, on which the results of the development are tried out. -/

namespace Sample

/-- A module whose `prepare` and `execute` return at once. -/
def idleScript : Bytes :=
  [0, 97, 115, 109, 1, 0, 0, 0, 1, 4, 1, 96, 0, 0, 3, 3, 2, 0, 0, 7, 21, 2, 7, 112, 114, 101, 112,
   97, 114, 101, 0, 0, 7, 101, 120, 101, 99, 117, 116, 101, 0, 1, 10, 7, 2, 2, 0, 11, 2, 0, 11]

/-- A module whose `prepare` calls `ask_external_data` once, with the external ID 1, the data
source 1 and no calldata, and whose `execute` returns at once. -/
def askingScript : Bytes :=
  [0, 97, 115, 109, 1, 0, 0, 0, 1, 11, 2, 96, 4, 126, 126, 126, 126, 0, 96, 0, 0, 2, 25, 1, 3, 101,
   110, 118, 17, 97, 115, 107, 95, 101, 120, 116, 101, 114, 110, 97, 108, 95, 100, 97, 116, 97, 0,
   0, 3, 3, 2, 1, 1, 5, 3, 1, 0, 1, 7, 21, 2, 7, 112, 114, 101, 112, 97, 114, 101, 0, 1, 7, 101,
   120, 101, 99, 117, 116, 101, 0, 2, 10, 17, 2, 12, 0, 66, 1, 66, 1, 66, 0, 66, 0, 16, 0, 11, 2, 0,
   11]

/-- The data of an IBC packet that asks one validator and wants no report. -/
def packetData : Bytes :=
  Bytes.ascii ("\x7b\"type\":\"oracle/OracleRequestPacketData\",\"value\":\x7b" ++
    "\"ask_count\":\"1\",\"calldata\":\"AQ==\",\"client_id\":\"test\"," ++
    "\"min_count\":\"0\",\"oracle_script_id\":\"1\"\x7d\x7d")

def recvPacket : RecvPacket := ⟨packetData, Bytes.ascii "oracle", Bytes.ascii "channel-0"⟩

def keeper : Keeper where
  owasm code isPrepare _ :=
    if code = askingScript then (if isPrepare then [.askExternalData 1 1 []] else [], 0)
    else if code = idleScript then ([], 0)
    else ([], 1)
  gunzip _ := none
  unmarshalJSON data :=
    if data = packetData then some ⟨Bytes.ascii "test", 1, [1], 1, 0⟩ else none
  sendPacket channels packet := some { channels with
    getNextSequenceSend := fun port channel =>
      if port = packet.sourcePort ∧ channel = packet.sourceChannel then some (packet.sequence + 1)
      else channels.getNextSequenceSend port channel }
  jail staking consAddr :=
    { bonded := staking.bonded.filter (·.consAddr ≠ consAddr)
      validator := fun val => (staking.validator val).map fun v =>
        if v.consAddr = consAddr then { v with jailed := true } else v }

def alice : Validator := ⟨List.replicate 20 1, List.replicate 20 11, 1000000, false, rfl⟩

def bob : Validator := ⟨List.replicate 20 2, List.replicate 20 12, 1000000, false, rfl⟩

def owner : AccAddress := List.replicate 20 3

/-- The first block, with the default genesis state and no files. -/
def genesis : World where
  header := ⟨1, 1590000000, 0, []⟩
  store := initGenesis defaultGenesisState
  files := .empty
  staking := ⟨[alice, bob], fun val => [alice, bob].find? (·.operator = val)⟩
  channels := ⟨fun _ _ => none, fun _ _ => none, fun _ _ => false⟩
  trace := []

lemma starts_genesis : Starts defaultGenesisState genesis := ⟨rfl, rfl⟩

/-- Create the data source 1 and the oracle script 1. -/
def create (code : Bytes) : List Label :=
  [.deliver (.createDataSource ⟨owner, [], [], Bytes.ascii "#!/bin/sh", owner⟩),
   .deliver (.createOracleScript ⟨owner, [], [], code, [], [], owner⟩)]

def requestMsg (askCount minCount : UInt64) : MsgRequestData :=
  ⟨1, [1], askCount, minCount, [], owner⟩

/-- The answer of a validator to the only raw request of the request 1. -/
def reportMsg (val : Validator) : MsgReportData := ⟨1, [⟨1, 0, [7]⟩], val.operator, val.operator⟩

/-- Both validators are asked, one report is wanted, and both report. -/
def twoReports : List Label :=
  create askingScript ++
    [.deliver (.requestData (requestMsg 2 1)), .deliver (.reportData (reportMsg alice)),
     .deliver (.reportData (reportMsg bob))]

/-- The block at the given height. -/
def block (height : ℤ) : Label := .beginBlock ⟨height, 1590000000 + 3 * height, 0, []⟩

/-- The rest of the first block and the 20 blocks after it, with nothing in them. -/
def idleBlocks : List Label :=
  .endBlock :: (List.range 20).flatMap fun i => [block (i + 2), .endBlock]

/-- Both validators are asked, and nobody reports until the request has expired. -/
def expiredRequest : List Label :=
  create askingScript ++ .deliver (.requestData (requestMsg 2 1)) :: idleBlocks

/-- A report in the block after the one in which its request expired. -/
def lateReport : List Label :=
  expiredRequest ++ [block 22, .deliver (.reportData (reportMsg alice)), .endBlock]

/-- A computed run, then a request that is accepted, then another computed run. -/
lemma exists_run_request_run {k : Keeper} {m : MsgRequestData} {I : World → World → Prop}
    [∀ w₁ w, Decidable (I w₁ w)] (w₀ : World) (ls₁ ls₂ : List Label)
    (h : (runAll (next k) (fun _ _ => True) ls₁ w₀).any (fun w₁ =>
      match (handleMsgRequestData k m).run w₁ with
      | .ok _ w₂ => (runAll (next k) (fun _ _ => True) ls₂ w₂).any fun w => decide (I w₁ w)
      | .error _ _ => false) = true) :
    ∃ w₁ w₂ w, Run (Step k) w₀ ls₁ w₁ ∧ (handleMsgRequestData k m).run w₁ = .ok () w₂ ∧
      Run (Step k) w₂ ls₂ w ∧ I w₁ w := by
  rcases hrun₁ : runAll (next k) (fun _ _ => True) ls₁ w₀ with _ | w₁
  · simp [hrun₁] at h
  · rw [hrun₁] at h
    rcases hreq : (handleMsgRequestData k m).run w₁ with ⟨u, w₂⟩ | ⟨e, w₂⟩
    · simp only [Option.any_some, hreq] at h
      obtain ⟨w, hrun₂, hI⟩ := exists_runWhere _ h
      exact ⟨w₁, w₂, w, runWhere_of_runAll hrun₁, hreq, hrun₂, hI⟩
    · simp [hreq] at h

end Sample

end Bandchain.Oracle
