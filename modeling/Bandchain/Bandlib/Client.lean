import Bandchain.Bank.Coins
import Bandchain.Lib.Run

/-!
# The stateful client

The client of `bandlib` that many callers share.  A call of `SendTransaction` puts its message
into a channel and waits for a reply.  One loop takes the messages from the channel, collects
some of them, broadcasts these as one transaction and replies to their callers.
-/

namespace Bandchain.Bandlib

/-- The fees of a message: the amount of every denomination. -/
abbrev Fees : Type := Bank.Denom → ℕ

section Model

variable {Msg Tx Err : Type}

/-! ## The client -/

structure MsgDetail (Msg : Type) where
  msg : Msg
  gas : UInt64
  fees : Fees
  /-- The call, for its channels `txChan` and `errChan`: no other call has them. -/
  caller : ℕ

/-- The fields of the client that the loop works on.  The channel `readMode` is closed, so it can
always be read, or it is `nil`, and then it never can. -/
structure BandStatefulClient (Msg : Type) where
  msgs : List Msg
  totalGas : UInt64
  totalFees : Fees
  txChans : List ℕ
  errChans : List ℕ
  readMode : Bool

/-- The client before the loop starts, and after a broadcast. -/
def BandStatefulClient.clear : BandStatefulClient Msg := ⟨[], 0, 0, [], [], true⟩

/-- The loop has read a message from the channel. -/
def BandStatefulClient.read (maximumMsgPerTx : ℕ) (client : BandStatefulClient Msg)
    (d : MsgDetail Msg) : BandStatefulClient Msg where
  msgs := client.msgs ++ [d.msg]
  totalGas := client.totalGas + d.gas
  totalFees := client.totalFees + d.fees
  txChans := client.txChans ++ [d.caller]
  errChans := client.errChans ++ [d.caller]
  readMode := if (client.msgs ++ [d.msg]).length = maximumMsgPerTx then false else client.readMode

/-! ## The system -/

/-- A transaction that has been broadcast, and what has become of it. -/
structure Batch (Msg Tx Err : Type) where
  msgs : List Msg
  gas : UInt64
  fees : Fees
  outcome : Except Err Tx

/-- Where the loop is. -/
inductive Phase (Tx Err : Type)
  | selecting
  /-- Sending the outcome to the channels that are left. -/
  | replying (outcome : Except Err Tx) (chans : List ℕ)

structure State (Msg Tx Err : Type) where
  client : BandStatefulClient Msg
  phase : Phase Tx Err
  /-- The calls that have not got their message into the channel yet. -/
  sending : List (MsgDetail Msg)
  /-- The messages in the channel. -/
  msgChan : List (MsgDetail Msg)
  /-- The calls that wait for a reply. -/
  awaiting : List ℕ
  /-- All calls so far. -/
  called : List ℕ
  /-- All messages that have been sent, in the order of their arrival. -/
  arrived : List (MsgDetail Msg)
  batches : List (Batch Msg Tx Err)
  replies : List (ℕ × Except Err Tx)

def State.init : State Msg Tx Err where
  client := .clear
  phase := .selecting
  sending := []
  msgChan := []
  awaiting := []
  called := []
  arrived := []
  batches := []
  replies := []

inductive Label (Msg Tx Err : Type)
  /-- A call of `SendTransaction` starts. -/
  | call (d : MsgDetail Msg)
  /-- A message enters the channel. -/
  | send (d : MsgDetail Msg)
  /-- The loop reads the first message in the channel. -/
  | take (d : MsgDetail Msg)
  /-- The loop reads a message from a call that still holds it. -/
  | handOff (d : MsgDetail Msg)
  /-- A timeout with some messages collected, and one with none. -/
  | timeout
  | idle
  /-- The sequence number cannot be fetched. -/
  | fetchFails
  | broadcast (outcome : Except Err Tx)
  | reply (c : ℕ)
  | clear

/-- The channels that get the outcome. -/
def BandStatefulClient.chans (client : BandStatefulClient Msg) : Except Err Tx → List ℕ
  | .ok _ => client.txChans
  | .error _ => client.errChans

/-- The steps of the loop and of the calls.  A channel of capacity `msgCap` takes messages while
it has room; one that is empty hands a message over. -/
inductive Step (msgCap maximumMsgPerTx : ℕ) :
    State Msg Tx Err → Label Msg Tx Err → State Msg Tx Err → Prop
  | call {s} {d : MsgDetail Msg} (hnew : d.caller ∉ s.called) :
      Step msgCap maximumMsgPerTx s (.call d)
        { s with sending := s.sending ++ [d], called := s.called ++ [d.caller] }
  | send {s} {d : MsgDetail Msg} {before after : List (MsgDetail Msg)}
      (hsending : s.sending = before ++ d :: after) (hroom : s.msgChan.length < msgCap) :
      Step msgCap maximumMsgPerTx s (.send d)
        { s with
          sending := before ++ after
          msgChan := s.msgChan ++ [d]
          awaiting := s.awaiting ++ [d.caller]
          arrived := s.arrived ++ [d] }
  | take {s} {d : MsgDetail Msg} {rest : List (MsgDetail Msg)} (hphase : s.phase = .selecting)
      (hmode : s.client.readMode = true) (hchan : s.msgChan = d :: rest) :
      Step msgCap maximumMsgPerTx s (.take d)
        { s with client := s.client.read maximumMsgPerTx d, msgChan := rest }
  | handOff {s} {d : MsgDetail Msg} {before after : List (MsgDetail Msg)}
      (hphase : s.phase = .selecting) (hmode : s.client.readMode = true) (hchan : s.msgChan = [])
      (hsending : s.sending = before ++ d :: after) :
      Step msgCap maximumMsgPerTx s (.handOff d)
        { s with
          client := s.client.read maximumMsgPerTx d
          sending := before ++ after
          awaiting := s.awaiting ++ [d.caller]
          arrived := s.arrived ++ [d] }
  | timeout {s} (hphase : s.phase = .selecting) (hmode : s.client.readMode = true)
      (hmsgs : s.client.msgs.length ≠ 0) :
      Step msgCap maximumMsgPerTx s .timeout
        { s with client := { s.client with readMode := false } }
  | idle {s} (hphase : s.phase = .selecting) (hmode : s.client.readMode = true)
      (hmsgs : s.client.msgs.length = 0) : Step msgCap maximumMsgPerTx s .idle s
  | fetchFails {s} (hphase : s.phase = .selecting) (hmode : s.client.readMode = false) :
      Step msgCap maximumMsgPerTx s .fetchFails s
  | broadcast {s} {outcome : Except Err Tx} (hphase : s.phase = .selecting)
      (hmode : s.client.readMode = false) :
      Step msgCap maximumMsgPerTx s (.broadcast outcome)
        { s with
          phase := .replying outcome (s.client.chans outcome)
          batches := s.batches ++
            [⟨s.client.msgs, s.client.totalGas, s.client.totalFees, outcome⟩] }
  | reply {s} {outcome : Except Err Tx} {c : ℕ} {rest : List ℕ}
      (hphase : s.phase = .replying outcome (c :: rest)) (hawaiting : c ∈ s.awaiting) :
      Step msgCap maximumMsgPerTx s (.reply c)
        { s with
          phase := .replying outcome rest
          awaiting := s.awaiting.erase c
          replies := s.replies ++ [(c, outcome)] }
  | clear {s} {outcome : Except Err Tx} (hphase : s.phase = .replying outcome []) :
      Step msgCap maximumMsgPerTx s .clear { s with client := .clear, phase := .selecting }

end Model

end Bandchain.Bandlib
