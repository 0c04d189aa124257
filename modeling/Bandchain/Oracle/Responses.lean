import Bandchain.Oracle.Commitment
import Bandchain.Oracle.Effects

/-!
# Responses over channels

A request that comes as a packet is answered by a packet.  Whatever packet the module sends is the
answer to a packet it took before: it goes back through the channel of the request, names its
client, and carries the result that was saved just then and is committed to in the store.
-/

namespace Bandchain.Oracle

open Exec

namespace Ledger

variable {L L' : Ledger} {a : Act}

/-- A packet that is sent carries the result that was saved just before, of a request that came
through the same channel. -/
def Answers (pre : List Call) : Call → Prop
  | .sendPacket q => ∃ (p : PrepareRecord) (r : Request) (s : SaveRecord) (ds : List Call),
      .prepareRequest p ∈ pre ∧ p.id = s.id ∧ p.Describes r ∧
      r.ibcInfo = some ⟨q.sourcePort, q.sourceChannel⟩ ∧
      pre = ds ++ [.saveResult s, .event s.event] ∧
      s = r.saveRecord s.id s.reportCount s.blockTime s.status s.result ∧
      q.data = r.response s.id s.reportCount s.blockTime s.status s.result
  | _ => True

lemma answers_quiet {c : Call} (h : c.IsQuiet) (pre : List Call) : Answers pre c := by
  cases c <;> first | exact h.elim | trivial

/-- What goes out after a result was saved. -/
lemma answers_sends {t cs : List Call} {p : PrepareRecord} {r : Request} {s : SaveRecord}
    (hp : .prepareRequest p ∈ t) (hid : p.id = s.id) (hdesc : p.Describes r)
    (hs : s = r.saveRecord s.id s.reportCount s.blockTime s.status s.result)
    (h : Sends r (r.response s.id s.reportCount s.blockTime s.status s.result) cs) :
    AlongFrom Answers (t ++ [.saveResult s] ++ [.event s.event]) cs := by
  cases h with
  | nothing => trivial
  | @packet info q hinfo hport hchannel hdata =>
    refine ⟨⟨p, r, s, t, ?_, hid, hdesc, ?_, by simp, hs, hdata⟩, trivial⟩
    · rw [List.append_assoc]
      exact List.mem_append_left _ hp
    · rw [hport, hchannel]
      exact hinfo

lemma Described.answers_step (h : L.Described) (hst : Step L a L') :
    ∃ cs, L'.trace = L.trace ++ cs ∧ AlongFrom Answers L.trace cs := by
  cases a with
  | quiet =>
    cases hst with
    | quiet _ hcs =>
      exact ⟨_, rfl, alongFrom_of_forall fun c hc pre => answers_quiet (hcs c hc) pre⟩
  | request p =>
    cases hst with
    | request _ _ _ _ => exact ⟨_, rfl, trivial, trivial⟩
  | report rid rep =>
    obtain ⟨_, _, _, _, _, _, _, ⟨_, _, htrace⟩ | ⟨_, _, htrace⟩⟩ := hst.of_report
    · exact ⟨_, htrace, trivial, trivial⟩
    · exact ⟨_, htrace, trivial, trivial, trivial⟩
  | resolve id =>
    obtain ⟨_, r, exitCode, retdata, time, cs, s, _, hr, hs, hsend, _, _, _, _, _, htrace⟩ :=
      hst.of_resolve
    obtain ⟨p, hp, hpid, hdesc⟩ := h.prepared id r hr
    have hsid : s.id = id := by rw [hs]; rfl
    refine ⟨_, htrace, trivial, trivial, trivial, ?_⟩
    refine answers_sends (List.mem_append_left _ hp) (hpid.trans hsid.symm) hdesc ?_ ?_
    · rw [hs]
      rfl
    · rw [hs] at hsend ⊢
      exact hsend
  | expire id =>
    obtain ⟨_, _, _, _, _, _, _, _, r, hr, ⟨time, cs, s, _, hs, hsend, _, htrace⟩ |
      ⟨_, _, htrace⟩⟩ := hst.of_expire
    · obtain ⟨p, hp, hpid, hdesc⟩ := h.prepared id r hr
      have hsid : s.id = id := by rw [hs]; rfl
      refine ⟨_, htrace, trivial, trivial, trivial, ?_⟩
      refine answers_sends (List.mem_append_left _ hp) (hpid.trans hsid.symm) hdesc ?_ ?_
      · rw [hs]
        rfl
      · rw [hs] at hsend ⊢
        exact hsend
    · exact ⟨_, htrace, trivial, trivial⟩

end Ledger

lemma answers_of_reachable {k : Keeper} {w : World} (h : ReachableWorld k w) :
    Along Ledger.Answers w.trace := by
  obtain ⟨w₀, ls, h₀, hrun⟩ := h
  have hfresh := fresh_of_starts h₀ rfl
  refine (ledger_invariant (Q := fun _ _ => True)
    (I := fun L => L.Recorded ∧ Along Ledger.Answers L.trace) (fun _ _ _ _ _ _ => trivial) ?_ hrun
    (scriptsBounded_of_starts h₀) ⟨hfresh.recorded, by simp [hfresh.trace]⟩).2
  rintro L a L' - hst ⟨hI, htrace⟩
  obtain ⟨cs, hcs, hanswers⟩ := hI.described.answers_step hst
  refine ⟨hI.step hst, ?_⟩
  rw [hcs]
  exact along_append.mpr ⟨htrace, hanswers⟩

/-! ## Where a request comes from -/

/-- A request that was not stored before a step was made by it. -/
lemma requests_of_stored {k : Keeper} {w w' : World} {l : Label} {id : RequestID}
    (h : Step k w l w') (hnot : ¬∃ r : Request, w.store.requests[id]? = some r)
    (hr : ∃ r : Request, w'.store.requests[id]? = some r) :
    ∃ packet info, Requests k w l packet info w' ∧ id = w.store.getRequestCount + 1 := by
  obtain ⟨r, hr⟩ := hr
  cases step_turn h with
  | aside haside => exact absurd ⟨r, haside.requests ▸ hr⟩ hnot
  | @request _ packet info _ p q hreq hprep =>
    refine ⟨packet, info, hreq, ?_⟩
    by_contra hne
    rw [hprep.quiet.requests] at hr
    refine hnot ⟨r, ?_⟩
    rwa [World.addRequest, Store.addRequest, Table.getElem?_insert_ne _ _ (Ne.symm hne)] at hr
  | @report m q _ _ _ _ hlogs =>
    obtain ⟨cs, rfl, -⟩ := hlogs
    have hsame : ((w.acceptReport m.requestID q (m.report w)).log cs).store.requests =
        w.store.requests := by
      unfold World.acceptReport
      split_ifs <;> rfl
    exact absurd ⟨r, hsame ▸ hr⟩ hnot
  | endBlock hrun => exact absurd ⟨r, (sameSetting_handleEndBlock hrun).requests ▸ hr⟩ hnot

/-- Every stored request was made by a step of the run. -/
lemma exists_requests_of_stored {k : Keeper} {w₀ w : World} {ls : List Label}
    (h₀ : Starts defaultGenesisState w₀) (hrun : Run (Step k) w₀ ls w) {id : RequestID}
    {r : Request} (hr : w.store.requests[id]? = some r) :
    ∃ before l after packet info u v, ls = before ++ l :: after ∧ Run (Step k) w₀ before u ∧
      Requests k u l packet info v ∧ Run (Step k) v after w ∧
      id = u.store.getRequestCount + 1 := by
  have hstart : ¬∃ r : Request, w₀.store.requests[id]? = some r := by
    rw [h₀.1, (fresh_initGenesis _).requests]
    simp
  rcases hrun.since (Q := fun w => ∃ r : Request, w.store.requests[id]? = some r) ⟨r, hr⟩ with
    ⟨hw₀, -⟩ | ⟨before, l, after, u, v, rfl, hbefore, hnot, hstep, hv, hafter⟩
  · exact absurd hw₀ hstart
  · obtain ⟨packet, info, hreq, hid⟩ := requests_of_stored hstep hnot hv
    exact ⟨before, l, after, packet, info, u, v, rfl, hbefore, hreq, hafter.run, hid⟩

/-! ## Responses -/

/-- The packet `q` answers the request that was made by the packet `p` in the world `u`, with the
result that the record `s` tells of. -/
structure RespondsTo (k : Keeper) (u : World) (p : RecvPacket) (q : Packet) (s : SaveRecord) :
    Prop where
  port : q.sourcePort = p.destPort
  channel : q.sourceChannel = p.destChannel
  id : s.id = u.store.getRequestCount + 1
  data : ∃ d, k.unmarshalJSON p.data = some d ∧ q.data =
    { clientID := d.clientID
      requestID := u.store.getRequestCount + 1
      ansCount := UInt64.ofNat s.reportCount
      requestTime := u.header.time
      resolveTime := s.blockTime
      resolveStatus := s.status
      result := s.result }

/-- **Responses.**  Every packet sent in a run answers a packet taken in it, through the channel of
that packet, with the result saved just before; and the hash of that result commits to it. -/
theorem response_of_request {k : Keeper} {w₀ w : World} {ls : List Label}
    (h₀ : Starts defaultGenesisState w₀) (hrun : Run (Step k) w₀ ls w) {pre post : List Call}
    {q : Packet} (hq : w.trace = pre ++ .sendPacket q :: post) :
    ∃ before p after u v s ds r, ls = before ++ .deliver (.recvPacket p) :: after ∧
      Run (Step k) w₀ before u ∧ Step k u (.deliver (.recvPacket p)) v ∧
      Run (Step k) v after w ∧ RespondsTo k u p q s ∧
      pre = ds ++ [.saveResult s, .event s.event] ∧ w.store.requests[s.id]? = some r ∧
      s.hash = calculateResultHash r.savedPacket q.data := by
  have hw : ReachableWorld k w := ⟨w₀, ls, h₀, hrun⟩
  have hI := recorded_of_reachable hw
  obtain ⟨p, r, s, ds, hp, hpid, hdesc, hinfo, hpre, hs, hdata⟩ :=
    (answers_of_reachable hw).at_split hq
  have hp' : .prepareRequest p ∈ w.trace := by
    rw [hq]
    exact List.mem_append_left _ hp
  obtain ⟨-, r', hr', hdesc'⟩ := hI.described.described p hp'
  -- the step that made the request, and what was recorded of it then
  obtain ⟨before, l, after, packet, info, u, v, hls, hbefore, hreq, hafter, hid⟩ :=
    exists_requests_of_stored h₀ hrun hr'
  obtain ⟨p₁, r₁, hp₁, hspec, hinfo₁, htime, hdesc₁, -, hr₁⟩ :=
    hreq.later ⟨w₀, before, h₀, hbefore⟩ hafter
  rw [hp₁, ← hid] at hr₁
  obtain rfl := Option.some.inj (hr'.symm.trans hr₁)
  have hinfo' : info = some ⟨q.sourcePort, q.sourceChannel⟩ := by
    rw [← hinfo₁, ← hdesc₁.ibcInfo, hdesc'.ibcInfo, ← hdesc.ibcInfo, hinfo]
  have hclient : r.clientID = packet.clientID := by
    rw [hdesc.clientID, ← hdesc'.clientID, hdesc₁.clientID, hspec]
    rfl
  have hrtime : r.requestTime = u.header.time := by
    rw [hdesc.requestTime, ← hdesc'.requestTime, hdesc₁.requestTime, htime]
  have hsaved : r.savedPacket = r'.savedPacket := by
    rw [savedPacket_eq hdesc, savedPacket_eq hdesc']
  cases hreq with
  | message _ _ => cases hinfo'
  | @packet m _ _ hjson hrecv =>
    obtain ⟨hport, hchannel⟩ := IBCInfo.mk.inj (Option.some.inj hinfo')
    refine ⟨before, m, after, u, v, s, ds, r', hls, hbefore,
      (Requests.packet hjson hrecv).step, hafter,
      ⟨hport.symm, hchannel.symm, hpid.symm.trans hid, packet, hjson, ?_⟩, hpre, hpid ▸ hr', ?_⟩
    · rw [hdata, Request.response, newOracleResponsePacketData, hclient, hrtime, ← hpid, hid]
    · rw [hdata, ← hsaved, hs]
      rfl

namespace Sample

/-- The data of an IBC packet that asks one validator and wants one report. -/
def answeredData : Bytes :=
  Bytes.ascii ("\x7b\"type\":\"oracle/OracleRequestPacketData\",\"value\":\x7b" ++
    "\"ask_count\":\"1\",\"calldata\":\"AQ==\",\"client_id\":\"test\"," ++
    "\"min_count\":\"1\",\"oracle_script_id\":\"1\"\x7d\x7d")

def relayedKeeper : Keeper :=
  { keeper with unmarshalJSON := fun data =>
      if data = answeredData then some ⟨Bytes.ascii "test", 1, [1], 1, 1⟩ else none }

/-- A channel is opened, a packet comes through it, and whoever is asked reports. -/
def relayedRequest : List Label :=
  .updateChannels ⟨fun _ _ => some ⟨Bytes.ascii "consuming", Bytes.ascii "channel-9"⟩,
      fun _ _ => some 1, fun _ _ => true⟩ :: create askingScript ++
    [.deliver (.recvPacket ⟨answeredData, Bytes.ascii "oracle", Bytes.ascii "channel-0"⟩),
     .deliver (.reportData (reportMsg alice)), .deliver (.reportData (reportMsg bob)), .endBlock]

lemma exists_relayedRequest : ∃ w, Run (Step relayedKeeper) genesis relayedRequest w ∧
    ∃ pre q post, w.trace = pre ++ .sendPacket q :: post := by
  obtain ⟨w, hrun, hcount⟩ := exists_runWhere (f := next relayedKeeper) (P := fun _ _ => True)
    (s := genesis) relayedRequest (I := fun w => 0 < w.trace.countP (Call.isSendPacket 1))
    (by decide +kernel)
  obtain ⟨c, hc, hsend⟩ := List.countP_pos_iff.mp hcount
  obtain ⟨pre, post, htrace⟩ := List.append_of_mem hc
  cases c with
  | sendPacket q => exact ⟨w, hrun, pre, q, post, htrace⟩
  | _ => cases hsend

end Sample

theorem response_of_request_sample : ∃ w q, Run (Step Sample.relayedKeeper) Sample.genesis
    Sample.relayedRequest w ∧ ∃ before p after u v s r,
      Sample.relayedRequest = before ++ .deliver (.recvPacket p) :: after ∧
      Step Sample.relayedKeeper u (.deliver (.recvPacket p)) v ∧
      RespondsTo Sample.relayedKeeper u p q s ∧ w.store.requests[s.id]? = some r ∧
      s.hash = calculateResultHash r.savedPacket q.data := by
  obtain ⟨w, hrun, pre, q, post, htrace⟩ := Sample.exists_relayedRequest
  obtain ⟨before, p, after, u, v, s, _, r, hls, _, hstep, _, hresp, _, hr, hhash⟩ :=
    response_of_request Sample.starts_genesis hrun htrace
  exact ⟨w, q, hrun, before, p, after, u, v, s, r, hls, hstep, hresp, hr, hhash⟩

end Bandchain.Oracle
