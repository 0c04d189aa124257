import Bandchain.Oracle.EventLog

/-!
# The transactions that the oracle daemon looks at

The daemon of a validator sees the logs of every transaction, one log for each message, and
starts to work on the logs that hold a request.  It looks for these by the events in a log.
-/

namespace Bandchain.Oracled

open Oracle

/-! ## The events of a log -/

/-- What one message of a transaction has emitted; `sdk.ABCIMessageLog`. -/
structure ABCIMessageLog where
  events : List AbciEvent
deriving DecidableEq

/-- The values in the log with the given type and key, in order. -/
def getEventValues (log : ABCIMessageLog) (evType evKey : String) : List Bytes :=
  (log.events.filter (·.type = evType)).flatMap fun ev =>
    (ev.attributes.filter (·.1 = evKey)).map Prod.snd

/-- The only value in the log with the given type and key. -/
def getEventValue (log : ABCIMessageLog) (evType evKey : String) : Except String Bytes :=
  match getEventValues log evType evKey with
  | [] => .error s!"Cannot find event with type: {evType}, key: {evKey}"
  | [value] => .ok value
  | _ :: _ :: _ => .error s!"Found more than one event with type: {evType}, key: {evKey}"

lemma getEventValue_eq_ok {log : ABCIMessageLog} {evType evKey : String} {value : Bytes} :
    getEventValue log evType evKey = .ok value ↔ getEventValues log evType evKey = [value] := by
  rw [getEventValue]
  rcases getEventValues log evType evKey with _ | ⟨_, _ | _⟩ <;> simp

lemma exists_getEventValue_eq_ok {log : ABCIMessageLog} {evType evKey : String} :
    (∃ value, getEventValue log evType evKey = .ok value) ↔
      (getEventValues log evType evKey).length = 1 := by
  simp only [getEventValue_eq_ok, List.length_eq_one_iff]

/-! ## The loop over the logs -/

/-- The part of `tmtypes.TxResult` that the daemon reads. -/
structure TxResult where
  code : UInt32
  log : Bytes

section Transaction

/- `(ibc.MsgPacket{}).Type()` and `sdk.ParseABCILogs` belong to other packages. -/
variable (packetType : Bytes) (parseABCILogs : Bytes → Option (List ABCIMessageLog))

/-- The logs that `handleRequestLog` is started for, by the loop of `handleTransaction`. -/
def handleLogs : List ABCIMessageLog → List ABCIMessageLog
  | [] => []
  | log :: logs =>
    match getEventValue log "message" "action" with
    | .error _ => handleLogs logs
    | .ok messageType =>
      if messageType = Bytes.ascii "request" then log :: handleLogs logs
      else if messageType = packetType then
        match getEventValue log "request" "id" with
        -- leaves the function, not only the round
        | .error _ => []
        | .ok _ => log :: handleLogs logs
      else handleLogs logs

def handleTransaction (tx : TxResult) : List ABCIMessageLog :=
  if tx.code ≠ 0 then []
  else
    match parseABCILogs tx.log with
    | none => []
    | some logs => handleLogs packetType logs

end Transaction

/-! ## The logs that hold a request -/

/-- The message of the log has the given type. -/
abbrev ABCIMessageLog.HasType (log : ABCIMessageLog) (messageType : Bytes) : Prop :=
  getEventValues log "message" "action" = [messageType]

/-- The log holds one request event. -/
abbrev ABCIMessageLog.HasRequest (log : ABCIMessageLog) : Prop :=
  (getEventValues log "request" "id").length = 1

/-- The log is that of a request, or of a packet that has led to one. -/
abbrev ABCIMessageLog.Wanted (packetType : Bytes) (log : ABCIMessageLog) : Prop :=
  log.HasType (Bytes.ascii "request") ∨ log.HasType packetType ∧ log.HasRequest

/-- The log is that of a packet that has led to no request. -/
abbrev ABCIMessageLog.OtherPacket (packetType : Bytes) (log : ABCIMessageLog) : Prop :=
  log.HasType packetType ∧ ¬log.Wanted packetType

variable {packetType : Bytes}

/-- The round for a log: it goes on, with the log or without it, or it ends the loop. -/
lemma handleLogs_cons (log : ABCIMessageLog) (logs : List ABCIMessageLog) :
    handleLogs packetType (log :: logs) =
      if log.Wanted packetType then log :: handleLogs packetType logs
      else if log.OtherPacket packetType then [] else handleLogs packetType logs := by
  rw [handleLogs]
  cases htype : getEventValue log "message" "action" with
  | error e =>
    -- neither a request nor a packet
    have hno : ∀ t, ¬log.HasType t := by
      intro t ht
      rw [ABCIMessageLog.HasType, ← getEventValue_eq_ok, htype] at ht
      cases ht
    rw [if_neg fun h => h.elim (hno _) fun h => hno _ h.1, if_neg fun h => hno _ h.1]
  | ok messageType =>
    have hiff : ∀ t, log.HasType t ↔ messageType = t := by
      intro t
      rw [ABCIMessageLog.HasType, ← getEventValue_eq_ok, htype, Except.ok.injEq]
    by_cases hrequest : messageType = Bytes.ascii "request"
    · simp only [hrequest, if_true]
      rw [if_pos (.inl ((hiff _).mpr hrequest))]
    by_cases hpacket : messageType = packetType
    · subst hpacket
      have hwanted : log.Wanted messageType ↔
          ∃ id, getEventValue log "request" "id" = .ok id := by
        rw [ABCIMessageLog.Wanted, hiff, hiff, or_iff_right hrequest, and_iff_right rfl,
          exists_getEventValue_eq_ok]
      simp only [if_neg hrequest, if_true]
      cases hid : getEventValue log "request" "id" with
      | error e =>
        have hnot : ¬log.Wanted messageType := by
          rw [hwanted, hid]
          rintro ⟨_, h⟩
          cases h
        rw [if_neg hnot, if_pos ⟨(hiff _).mpr rfl, hnot⟩]
      | ok id => rw [if_pos (hwanted.mpr ⟨id, hid⟩)]
    · simp only [hrequest, hpacket, if_false]
      rw [if_neg, if_neg fun h => hpacket ((hiff _).mp h.1)]
      rintro (h | ⟨h, _⟩)
      · exact hrequest ((hiff _).mp h)
      · exact hpacket ((hiff _).mp h)

/-- The loop handles the logs up to the first packet that holds no request. -/
lemma handleLogs_eq (logs : List ABCIMessageLog) :
    handleLogs packetType logs =
      (logs.takeWhile (¬·.OtherPacket packetType)).filter (·.Wanted packetType) := by
  induction logs with
  | nil => rfl
  | cons log logs ih =>
    rw [handleLogs_cons, ih, List.takeWhile_cons]
    by_cases hwanted : log.Wanted packetType
    · have hother : ¬log.OtherPacket packetType := fun h => h.2 hwanted
      simp [hwanted, hother]
    · by_cases hother : log.OtherPacket packetType <;> simp [hwanted, hother]

/-- Nothing is lost by stopping early if no element after a stop is wanted. -/
lemma filter_takeWhile_eq_filter_iff {α : Type} {stop wanted : α → Prop} [DecidablePred stop]
    [DecidablePred wanted] (hstop : ∀ a, stop a → ¬wanted a) (l : List α) :
    (l.takeWhile (¬stop ·)).filter (wanted ·) = l.filter (wanted ·) ↔
      l.Pairwise fun a b => stop a → ¬wanted b := by
  induction l with
  | nil => simp
  | cons a l ih =>
    rw [List.pairwise_cons, ← ih, List.takeWhile_cons, List.filter_cons]
    by_cases ha : stop a
    · -- the rest is not looked at
      rw [if_neg (by simp [ha]), if_neg (by simp [hstop a ha]), List.filter_nil]
      constructor
      · intro h
        have hnone : ∀ b ∈ l, ¬wanted b := by simpa using List.filter_eq_nil_iff.mp h.symm
        refine ⟨fun b hb _ => hnone b hb, ?_⟩
        rw [← h, List.filter_eq_nil_iff]
        intro b hb
        simpa using hnone b ((List.takeWhile_sublist _).subset hb)
      · rintro ⟨h, _⟩
        refine (List.filter_eq_nil_iff.mpr fun b hb => ?_).symm
        simpa using h b hb ha
    · by_cases hwanted : wanted a <;> simp [ha, hwanted]

/-- **The requests of a transaction.**  The daemon starts to work on exactly the logs that hold a
request, wherever they stand among the others, if and only if no such log comes after the log of a
packet without a request: there the loop is left. -/
theorem handleTransaction_eq_filter_iff {parseABCILogs : Bytes → Option (List ABCIMessageLog)}
    {tx : TxResult} {logs : List ABCIMessageLog} (hcode : tx.code = 0)
    (hlogs : parseABCILogs tx.log = some logs) :
    handleTransaction packetType parseABCILogs tx = logs.filter (·.Wanted packetType) ↔
      logs.Pairwise fun log later =>
        log.OtherPacket packetType → ¬later.Wanted packetType := by
  have hhandled : handleTransaction packetType parseABCILogs tx = handleLogs packetType logs := by
    rw [handleTransaction, if_neg (not_not.mpr hcode), hlogs]
  rw [hhandled, handleLogs_eq]
  exact filter_takeWhile_eq_filter_iff (fun _ h => h.2) logs

namespace Sample

def packet : Bytes := Bytes.ascii "ics04/opaque"

/-- The log of a packet that transfers tokens. -/
def transferLog : ABCIMessageLog where
  events :=
    [⟨"message", [("action", packet), ("module", Bytes.ascii "transfer")]⟩,
     ⟨"fungible_token_packet", [("success", Bytes.ascii "true")]⟩]

def requestLog : ABCIMessageLog where
  events :=
    [⟨"message", [("action", Bytes.ascii "request")]⟩,
     ⟨"request", [("id", Bytes.ascii "7"), ("client_id", Bytes.ascii "c")]⟩]

/-- A transaction whose log is read as the given logs. -/
def tx : TxResult := ⟨0, []⟩

end Sample

/-- A request after a transfer is not handled. -/
theorem not_handles_later_request :
    handleTransaction Sample.packet (fun _ => some [Sample.transferLog, Sample.requestLog])
        Sample.tx = [] ∧
      [Sample.transferLog, Sample.requestLog].filter (·.Wanted Sample.packet) =
        [Sample.requestLog] := by
  decide +kernel

/-- A request before a transfer is handled. -/
theorem handleTransaction_eq_filter_iff_sample :
    handleTransaction Sample.packet (fun _ => some [Sample.requestLog, Sample.transferLog])
        Sample.tx =
      [Sample.requestLog, Sample.transferLog].filter (·.Wanted Sample.packet) :=
  (handleTransaction_eq_filter_iff rfl rfl).mpr (by decide +kernel)

end Bandchain.Oracled
