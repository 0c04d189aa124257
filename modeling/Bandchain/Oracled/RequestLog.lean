import Bandchain.Oracle.Asking
import Bandchain.Oracled.Handler

/-!
# The log of a request

What the daemon reads from the log of a request: the identifier, the validators and, for every raw
request, the file of its data source, its external identifier and its calldata, as they were when
the request was accepted.
-/

namespace Bandchain.Oracled

open Oracle

/-- The log holds the given events of a request; whatever else it holds is of other types. -/
def ABCIMessageLog.Carries (log : ABCIMessageLog) (bech32 : Bytes → Bytes) (events : List Event) :
    Prop :=
  ∀ evType ∈ ["request", "raw_request"], ∀ evKey, getEventValues log evType evKey =
    getEventValues ⟨events.map (Event.toAbci bech32)⟩ evType evKey

/-- What the daemon has to read from the event of a raw request. -/
def rawRequestOf (a : DataSource × Oracle.RawRequest) : RawRequest :=
  ⟨a.2.dataSourceID, a.1.filename, a.2.externalID, a.2.calldata⟩

/-- All numbers in the events of a request are signed 64-bit numbers, as they are in the source. -/
structure Fits (id : RequestID) (asked : List (DataSource × Oracle.RawRequest)) : Prop where
  id : Decimal.FitsInt64 id
  dataSourceID : ∀ a ∈ asked, Decimal.FitsInt64 a.2.dataSourceID
  externalID : ∀ a ∈ asked, Decimal.FitsInt64 a.2.externalID

variable {id : RequestID} {r : Request} {asked : List (DataSource × Oracle.RawRequest)}
  {bech32 : Bytes → Bytes}

/-! ## Values of events -/

@[simp] lemma type_requestEvent (bech32 : Bytes → Bytes) (id : RequestID)
    (vals : List ValAddress) : ((requestEvent id vals).toAbci bech32).type = "request" := rfl

@[simp] lemma type_rawRequestEvent (bech32 : Bytes → Bytes) (ds : DataSource)
    (req : Oracle.RawRequest) : ((rawRequestEvent ds req).toAbci bech32).type = "raw_request" := rfl

/-- The values of one event under a key. -/
def eventValues (e : AbciEvent) (evKey : String) : List Bytes :=
  (e.attributes.filter (·.1 = evKey)).map Prod.snd

lemma getEventValues_cons (e : AbciEvent) (es : List AbciEvent) (evType evKey : String) :
    getEventValues ⟨e :: es⟩ evType evKey =
      (if e.type = evType then eventValues e evKey else []) ++
        getEventValues ⟨es⟩ evType evKey := by
  by_cases htype : e.type = evType <;> simp [getEventValues, eventValues, htype]

/-- The events of raw requests give one value for each under every one of their keys. -/
lemma getEventValues_rawRequestEvents (asked : List (DataSource × Oracle.RawRequest))
    {evKey : String} {value : DataSource × Oracle.RawRequest → Bytes}
    (hkey : ∀ a, eventValues ((rawRequestEvent a.1 a.2).toAbci bech32) evKey = [value a]) :
    getEventValues ⟨asked.map fun a => (rawRequestEvent a.1 a.2).toAbci bech32⟩ "raw_request"
      evKey = asked.map value := by
  induction asked with
  | nil => rfl
  | cons a asked ih =>
    rw [List.map_cons, getEventValues_cons, ih, hkey, if_pos (type_rawRequestEvent _ _ _)]
    rfl

/-- The events of raw requests hold nothing under the type of the other event. -/
lemma getEventValues_request_rawRequestEvents (asked : List (DataSource × Oracle.RawRequest))
    (evKey : String) :
    getEventValues ⟨asked.map fun a => (rawRequestEvent a.1 a.2).toAbci bech32⟩ "request" evKey =
      [] := by
  induction asked with
  | nil => rfl
  | cons a asked ih =>
    have htype : ((rawRequestEvent a.1 a.2).toAbci bech32).type ≠ "request" := by simp
    rw [List.map_cons, getEventValues_cons, ih, if_neg htype]
    rfl

lemma map_toAbci_requestEvents (id : RequestID) (r : Request)
    (asked : List (DataSource × Oracle.RawRequest)) :
    (requestEvents id r asked).map (Event.toAbci bech32) =
      (requestEvent id r.requestedValidators).toAbci bech32 ::
        asked.map fun a => (rawRequestEvent a.1 a.2).toAbci bech32 := by
  rw [requestEvents, List.map_cons, List.map_map]
  rfl

/-! ## Values of the log -/

section Values

variable {log : ABCIMessageLog} (hlog : log.Carries bech32 (requestEvents id r asked))

include hlog

lemma getEventValues_request (evKey : String) : getEventValues log "request" evKey =
    eventValues ((requestEvent id r.requestedValidators).toAbci bech32) evKey := by
  rw [hlog _ (by simp), map_toAbci_requestEvents, getEventValues_cons,
    getEventValues_request_rawRequestEvents, List.append_nil, if_pos (type_requestEvent _ _ _)]

lemma getEventValue_id : getEventValue log "request" "id" = .ok (Decimal.print id) := by
  rw [getEventValue_eq_ok, getEventValues_request hlog]
  simp [eventValues, Event.toAbci, requestEvent, AttrValue.toText]

lemma getEventValues_validator :
    getEventValues log "request" "validator" = r.requestedValidators.map bech32 := by
  rw [getEventValues_request hlog]
  simp [eventValues, Event.toAbci, requestEvent, AttrValue.toText, List.filter_map,
    Function.comp_def]

lemma getEventValues_rawRequest {evKey : String} {value : DataSource × Oracle.RawRequest → Bytes}
    (hkey : ∀ a, eventValues ((rawRequestEvent a.1 a.2).toAbci bech32) evKey = [value a]) :
    getEventValues log "raw_request" evKey = asked.map value := by
  have htype : ((requestEvent id r.requestedValidators).toAbci bech32).type ≠ "raw_request" := by
    simp
  rw [hlog _ (by simp), map_toAbci_requestEvents, getEventValues_cons, if_neg htype,
    getEventValues_rawRequestEvents asked hkey, List.nil_append]

end Values

/-! ## The raw requests -/

lemma atoi_print (what : String) {n : ℤ} (h : Decimal.FitsInt64 n) :
    atoi what (Decimal.print n) = .ok n := by
  rw [atoi, Decimal.parseInt64_print h]

lemma readRawRequests_eq (hfit : Fits id asked) :
    readRawRequests (asked.map fun a => Decimal.print a.2.dataSourceID)
      (asked.map fun a => a.1.filename) (asked.map fun a => Decimal.print a.2.externalID)
      (asked.map fun a => a.2.calldata) = .ok (asked.map rawRequestOf) := by
  induction asked with
  | nil => rfl
  | cons a asked ih =>
    have hdid := atoi_print "data source id" (hfit.dataSourceID a List.mem_cons_self)
    have heid := atoi_print "external id" (hfit.externalID a List.mem_cons_self)
    have htail := ih ⟨hfit.id, fun b hb => hfit.dataSourceID b (List.mem_cons_of_mem _ hb),
      fun b hb => hfit.externalID b (List.mem_cons_of_mem _ hb)⟩
    simp only [List.map_cons, readRawRequests, hdid, heid, htail]
    rfl

/-- The daemon reads all raw requests of the request. -/
lemma getRawRequests_eq {log : ABCIMessageLog} (hfit : Fits id asked)
    (hlog : log.Carries bech32 (requestEvents id r asked)) :
    getRawRequests log = .ok (asked.map rawRequestOf) := by
  have hdid : getEventValues log "raw_request" "data_source_id" =
      asked.map fun a => Decimal.print a.2.dataSourceID :=
    getEventValues_rawRequest hlog fun _ => rfl
  have hhash : getEventValues log "raw_request" "data_source_hash" =
      asked.map fun a => a.1.filename :=
    getEventValues_rawRequest hlog fun _ => rfl
  have heid : getEventValues log "raw_request" "external_id" =
      asked.map fun a => Decimal.print a.2.externalID :=
    getEventValues_rawRequest hlog fun _ => rfl
  have hcalldata : getEventValues log "raw_request" "calldata" =
      asked.map fun a => a.2.calldata :=
    getEventValues_rawRequest hlog fun _ => rfl
  rw [getRawRequests, hdid, hhash, heid, hcalldata]
  simp only [List.length_map, ne_eq, not_true_eq_false, if_false]
  exact readRawRequests_eq hfit

/-- The handler starts a goroutine for every raw request of a request that is addressed to the
validator. -/
lemma handleRequestLog_eq_start {c : Context} {log : ABCIMessageLog} (hfit : Fits id asked)
    (hlog : log.Carries c.bech32 (requestEvents id r asked))
    (hval : c.validator ∈ r.requestedValidators) :
    handleRequestLog c log = .start id (asked.map rawRequestOf) := by
  have hmem : c.bech32 c.validator ∈ getEventValues log "request" "validator" := by
    rw [getEventValues_validator hlog]
    exact List.mem_map_of_mem hval
  simp only [handleRequestLog, getEventValue_id hlog, Decimal.parseInt64_print hfit.id,
    if_pos hmem, getRawRequests_eq hfit hlog]

end Bandchain.Oracled
