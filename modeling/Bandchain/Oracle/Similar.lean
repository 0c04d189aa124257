import Bandchain.Lib.Relational
import Bandchain.Oracle.EndBlock

/-!
# The end of a block in similar worlds

Two worlds are similar if they are equal up to the order of the queue and of the history, and up
to sequence numbers of packets.  The end of a block, run in similar worlds, leads to similar
worlds: resolving two requests in either order gives the same results, because resolving one
reads nothing that resolving the other writes.
-/

namespace Bandchain.Oracle

open Exec

/-! ## Observers -/

/-- What somebody can tell of outgoing packets: which states of the channels are the same to him,
and what he sees of the history.  The packets sent from states that are the same to him look the
same, and sending leads to a state that is the same. -/
structure Observer (k : Keeper) where
  same : Channels → Channels → Prop
  equiv : Equivalence same
  view : Call → Option Call
  respond : ∀ (info : Option IBCInfo) (res : OracleResponsePacketData) (w w' : World),
    w'.header = w.header → same w.channels w'.channels →
    ∃ c c' cs cs', (respond k info res).run w = .ok () { w.log cs with channels := c } ∧
      (Oracle.respond k info res).run w' = .ok () { w'.log cs' with channels := c' } ∧
      same w.channels c ∧ same w'.channels c' ∧ cs.filterMap view = cs'.filterMap view

lemma respond_cases (k : Keeper) (info : Option IBCInfo) (res : OracleResponsePacketData)
    (w : World) : ∃ c cs, (respond k info res).run w = .ok () { w.log cs with channels := c } ∧
      (cs = [] ∨ ∃ p, cs = [.sendPacket p]) := by
  cases info with
  | none => exact ⟨w.channels, [], by simp [World.log, respond], .inl rfl⟩
  | some info =>
    rcases sendOracleResponse_cases k info.sourcePort info.sourceChannel res w with
      hrun | ⟨p, channels, hrun, -⟩
    · refine ⟨w.channels, [], ?_, .inl rfl⟩
      rw [World.log, List.append_nil]
      exact hrun
    · exact ⟨channels, _, hrun, .inr ⟨p, rfl⟩⟩

/-- A call, unless it sends a packet. -/
def Call.exceptPackets : Call → Option Call
  | .sendPacket _ => none
  | c => some c

/-- An observer who does not see packets. -/
def Observer.blind (k : Keeper) : Observer k where
  same _ _ := True
  equiv := ⟨fun _ => trivial, fun _ => trivial, fun _ _ => trivial⟩
  view := Call.exceptPackets
  respond info res w w' _ _ := by
    obtain ⟨c, cs, hrun, hcs⟩ := respond_cases k info res w
    obtain ⟨c', cs', hrun', hcs'⟩ := respond_cases k info res w'
    have hnone : ∀ cs : List Call, (cs = [] ∨ ∃ p, cs = [.sendPacket p]) →
        cs.filterMap Call.exceptPackets = [] := by
      rintro _ (rfl | ⟨p, rfl⟩) <;> rfl
    exact ⟨c, c', cs, cs', hrun, hrun', trivial, trivial, by rw [hnone cs hcs, hnone cs' hcs']⟩

/-- A packet without its sequence number. -/
def Packet.unnumbered (p : Packet) : Packet := { p with sequence := 0 }

/-- A call, where the packets have no sequence numbers. -/
def Call.unnumbered : Call → Call
  | .sendPacket p => .sendPacket p.unnumbered
  | c => c

/-- The states of the channels differ in sequence numbers only. -/
structure SameRoutes (c c' : Channels) : Prop where
  channel : c'.getChannel = c.getChannel
  capability : c'.hasCapability = c.hasCapability
  numbered : ∀ port channel, (c'.getNextSequenceSend port channel).isSome =
    (c.getNextSequenceSend port channel).isSome

/-- What `SendPacket` is expected to do: it writes the next sequence number of a channel, and
whether it succeeds does not depend on the sequence numbers, as long as a packet has the next
one. -/
structure Keeper.SendsByRoute (k : Keeper) : Prop where
  routes : ∀ (c c' : Channels) (p : Packet),
    c.getNextSequenceSend p.sourcePort p.sourceChannel = some p.sequence →
    k.sendPacket c p = some c' → SameRoutes c c'
  uniform : ∀ (c c' : Channels) (p p' : Packet), SameRoutes c c' →
    p'.unnumbered = p.unnumbered →
    c.getNextSequenceSend p.sourcePort p.sourceChannel = some p.sequence →
    c'.getNextSequenceSend p'.sourcePort p'.sourceChannel = some p'.sequence →
    (k.sendPacket c' p').isSome = (k.sendPacket c p).isSome

lemma equivalence_sameRoutes : Equivalence SameRoutes where
  refl _ := ⟨rfl, rfl, fun _ _ => rfl⟩
  symm h := ⟨h.1.symm, h.2.symm, fun port channel => (h.3 port channel).symm⟩
  trans h h' := ⟨h'.1.trans h.1, h'.2.trans h.2,
    fun port channel => (h'.3 port channel).trans (h.3 port channel)⟩

/-- An observer who sees packets without their sequence numbers. -/
def Observer.unnumbered (k : Keeper) (h : k.SendsByRoute) : Observer k where
  same := SameRoutes
  equiv := equivalence_sameRoutes
  view := some ∘ Call.unnumbered
  respond info res w w' hheader hroutes := by
    have hnothing : ∃ c c' cs cs', (pure () : OracleM Unit).run w =
          .ok () { w.log cs with channels := c } ∧
        (pure () : OracleM Unit).run w' = .ok () { w'.log cs' with channels := c' } ∧
        SameRoutes w.channels c ∧ SameRoutes w'.channels c' ∧
        cs.filterMap (some ∘ Call.unnumbered) = cs'.filterMap (some ∘ Call.unnumbered) :=
      ⟨w.channels, w'.channels, [], [], by simp [World.log], by simp [World.log],
        equivalence_sameRoutes.refl _, equivalence_sameRoutes.refl _, rfl⟩
    cases info with
    | none => exact hnothing
    | some info =>
      rw [Oracle.respond, sendOracleResponse, run_get_bind, run_get_bind, hroutes.channel,
        hroutes.capability, hheader]
      have hsome := hroutes.numbered info.sourcePort info.sourceChannel
      cases w.channels.getChannel info.sourcePort info.sourceChannel with
      | none => exact hnothing
      | some ch =>
        cases hseq : w.channels.getNextSequenceSend info.sourcePort info.sourceChannel with
        | none =>
          rw [hseq, Option.isSome_none, Option.isSome_eq_false_iff,
            Option.isNone_iff_eq_none] at hsome
          rw [hsome]
          exact hnothing
        | some seq =>
          rw [hseq] at hsome
          obtain ⟨seq', hseq'⟩ := Option.isSome_iff_exists.mp hsome
          rw [hseq']
          dsimp only
          split_ifs
          · exact hnothing
          · generalize hp : ({ data := res, sequence := seq, sourcePort := _, sourceChannel := _
                               destPort := _, destChannel := _, timeoutHeight := _
                               timeoutTimestamp := _ } : Packet) = p
            generalize hp' : ({ data := res, sequence := seq', sourcePort := _, sourceChannel := _
                                destPort := _, destChannel := _, timeoutHeight := _
                                timeoutTimestamp := _ } : Packet) = p'
            have hun : p'.unnumbered = p.unnumbered := by
              rw [← hp, ← hp']
              rfl
            have hnext : w.channels.getNextSequenceSend p.sourcePort p.sourceChannel =
                some p.sequence := by
              rw [← hp]
              exact hseq
            have hnext' : w'.channels.getNextSequenceSend p'.sourcePort p'.sourceChannel =
                some p'.sequence := by
              rw [← hp']
              exact hseq'
            have hsend := h.uniform w.channels w'.channels p p' hroutes hun hnext hnext'
            cases hsent : k.sendPacket w.channels p with
            | none =>
              rw [hsent, Option.isSome_none, Option.isSome_eq_false_iff,
                Option.isNone_iff_eq_none] at hsend
              rw [hsend]
              exact hnothing
            | some c =>
              rw [hsent] at hsend
              obtain ⟨c', hsent'⟩ := Option.isSome_iff_exists.mp hsend
              rw [hsent']
              refine ⟨c, c', [.sendPacket p], [.sendPacket p'], rfl, rfl,
                h.routes _ _ p hnext hsent, h.routes _ _ p' hnext' hsent', ?_⟩
              show [Call.sendPacket p.unnumbered] = [Call.sendPacket p'.unnumbered]
              rw [hun]

/-! ## Similar worlds -/

/-- The store without its queue. -/
def Store.unqueued (s : Store) : Store := { s with pendingResolveList := none }

/-- The worlds are equal up to the order of the queue and of the history, and up to what an
observer cannot tell apart. -/
structure Similar {k : Keeper} (o : Observer k) (w w' : World) : Prop where
  header : w'.header = w.header
  files : w'.files = w.files
  staking : w'.staking = w.staking
  store : w'.store.unqueued = w.store.unqueued
  pending : List.Perm w.store.getPendingResolveList w'.store.getPendingResolveList
  channels : o.same w.channels w'.channels
  trace : List.Perm (w.trace.filterMap o.view) (w'.trace.filterMap o.view)

section

variable {k : Keeper} {o : Observer k} {w w' : World}

lemma Similar.refl (o : Observer k) (w : World) : Similar o w w :=
  ⟨rfl, rfl, rfl, rfl, .refl _, o.equiv.refl _, .refl _⟩

instance : Std.Symm (Similar o) where
  symm _ _ h := ⟨h.header.symm, h.files.symm, h.staking.symm, h.store.symm, h.pending.symm,
    o.equiv.symm h.channels, h.trace.symm⟩

instance : IsTrans World (Similar o) where
  trans _ _ _ h h' := ⟨h'.header.trans h.header, h'.files.trans h.files,
    h'.staking.trans h.staking, h'.store.trans h.store, h.pending.trans h'.pending,
    o.equiv.trans h.channels h'.channels, h.trace.trans h'.trace⟩

/-- Similar worlds read the same from the store, apart from the queue. -/
lemma Similar.read (h : Similar o w w') {β : Type} (f : Store → β)
    (hf : ∀ s, f s.unqueued = f s) : f w'.store = f w.store := by
  rw [← hf, h.store, hf]

lemma Similar.log (h : Similar o w w') (cs : List Call) : Similar o (w.log cs) (w'.log cs) where
  header := h.header
  files := h.files
  staking := h.staking
  store := h.store
  pending := h.pending
  channels := h.channels
  trace := by
    rw [World.log, World.log, List.filterMap_append, List.filterMap_append]
    exact h.trace.append_right _

/-- A change of the store outside the queue. -/
lemma Similar.change (h : Similar o w w') {f : Store → Store}
    (hf : ∀ s, (f s).unqueued = f s.unqueued)
    (hq : ∀ s, (f s).pendingResolveList = s.pendingResolveList) :
    Similar o { w with store := f w.store } { w' with store := f w'.store } where
  header := h.header
  files := h.files
  staking := h.staking
  store := by
    show (f w'.store).unqueued = (f w.store).unqueued
    rw [hf, hf, h.store]
  pending := by
    simp only [Store.getPendingResolveList, hq]
    exact h.pending
  channels := h.channels
  trace := h.trace

lemma agree_record (c : Call) : Agree (Similar o) (record c) :=
  Agree.modify fun _ _ h => h.log [c]

lemma agree_readStore {α : Type} {f : Store → Except Err α} (hf : ∀ s, f s.unqueued = f s) :
    Agree (Similar o) (readStore f) := by
  refine Agree.get_bind fun w w' h => ?_
  rw [h.read f hf]
  exact Agree.valueOf _ w w' h

lemma agree_modifyStore {f : Store → Store} (hf : ∀ s, (f s).unqueued = f s.unqueued)
    (hq : ∀ s, (f s).pendingResolveList = s.pendingResolveList) :
    Agree (Similar o) (modifyStore f) := Agree.modify fun _ _ h => h.change hf hq

lemma agree_respond (info : Option IBCInfo) (res : OracleResponsePacketData) :
    Agree (Similar o) (respond k info res) := by
  intro w w' h
  obtain ⟨c, c', cs, cs', hrun, hrun', hc, hc', hcs⟩ :=
    o.respond info res w w' h.header h.channels
  refine .of_ok hrun hrun' ⟨h.header, h.files, h.staking, h.store, h.pending, ?_, ?_⟩
  · exact o.equiv.trans (o.equiv.symm hc) (o.equiv.trans h.channels hc')
  · show List.Perm ((w.trace ++ cs).filterMap o.view) ((w'.trace ++ cs').filterMap o.view)
    rw [List.filterMap_append, List.filterMap_append, hcs]
    exact h.trace.append_right _

/-! ## Expiry -/

lemma agree_saveResult (id : RequestID) (status : ResolveStatus) (result : Bytes) :
    Agree (Similar o) (saveResult id status result) := by
  refine (agree_readStore fun _ => rfl).bind fun r => Agree.get_bind fun w w' h => ?_
  have hcount : w'.store.getReportCount id = w.store.getReportCount id :=
    h.read (·.getReportCount id) fun _ => rfl
  rw [hcount, h.header]
  refine (agree_modifyStore (by intro; rfl) (by intro; rfl)).bind (fun _ => ?_) w w' h
  exact (agree_record _).bind fun _ => (agree_record _).bind fun _ => Agree.pure _

lemma agree_handleValidatorReport (val : ValAddress) (reported : Bool) :
    Agree (Similar o) (handleValidatorReport k val reported) := by
  intro w w' h
  have hinfo : w'.store.getValidatorReportInfoWithDefault val =
      w.store.getValidatorReportInfoWithDefault val :=
    h.read (·.getValidatorReportInfoWithDefault val) fun _ => rfl
  have hparams : w'.store.params = w.store.params := h.read (·.params) fun _ => rfl
  have hverdict : w'.verdict val reported = w.verdict val reported := by
    rw [World.verdict, World.verdict, hinfo, hparams, h.staking]
  refine .of_ok (handleValidatorReport_run k val reported w)
    (handleValidatorReport_run k val reported w') ?_
  unfold World.afterReport
  rw [hverdict, hinfo, h.staking]
  let info : ValidatorReportInfo := { w.store.getValidatorReportInfoWithDefault val with
    consecutiveMissed := (w.verdict val reported).1 }
  have hchange := (h.change (f := fun s => { s with reportInfos := s.reportInfos.insert val info })
    (fun _ => rfl) (fun _ => rfl)).log (.handleValidatorReport val reported ::
      .stakingValidator val ((w.staking.validator val).map Validator.status) ::
      jailCalls (w.verdict val reported).2)
  exact ⟨hchange.header, hchange.files, rfl, hchange.store, hchange.pending, hchange.channels,
    hchange.trace⟩

lemma agree_updateReportInfos (id : RequestID) : Agree (Similar o) (updateReportInfos k id) := by
  refine Agree.get_bind fun w w' h => ?_
  have hreports : w'.store.getReports id = w.store.getReports id :=
    h.read (·.getReports id) fun _ => rfl
  rw [hreports]
  refine (agree_readStore fun _ => rfl).bind (fun r => ?_) w w' h
  exact Agree.forM fun val _ => agree_handleValidatorReport val _

lemma agree_expireRequest (id : RequestID) (r : Request) :
    Agree (Similar o) (expireRequest k id r) := by
  have hfinish : Agree (Similar o) (do
      updateReportInfos k id
      modifyStore fun s => { s with requestLastExpired := some id }) :=
    (agree_updateReportInfos id).bind fun _ => agree_modifyStore (by intro; rfl) (by intro; rfl)
  refine Agree.get_bind fun w w' h => ?_
  have hcount : w'.store.getReportCount id = w.store.getReportCount id :=
    h.read (·.getReportCount id) fun _ => rfl
  rw [hcount]
  refine (agree_record _).bind (fun _ => Agree.ite ?_ hfinish) w w' h
  exact (agree_saveResult _ _ _).bind fun _ => (agree_respond _ _).bind fun _ => hfinish

lemma agree_processExpiredLoop (count : ℤ) (n : ℕ) (id : RequestID) :
    Agree (Similar o) (processExpiredLoop k count n id) := by
  induction n generalizing id with
  | zero => exact Agree.pure _
  | succ n ih =>
    refine (agree_readStore fun _ => rfl).bind fun r => Agree.get_bind fun w w' h => ?_
    rw [h.header]
    exact Agree.ite (Agree.pure _) ((agree_expireRequest id r).bind fun _ => ih _) w w' h

lemma agree_processExpiredRequests : Agree (Similar o) (processExpiredRequests k) := by
  refine Agree.get_bind fun w w' h => ?_
  have hcursor : w'.store.getRequestLastExpired = w.store.getRequestLastExpired :=
    h.read (·.getRequestLastExpired) fun _ => rfl
  have hcount : w'.store.getRequestCount = w.store.getRequestCount :=
    h.read (·.getRequestCount) fun _ => rfl
  have hparams : w'.store.params = w.store.params := h.read (·.params) fun _ => rfl
  rw [hcursor, hcount, hparams]
  exact agree_processExpiredLoop _ _ _ w w' h

/-! ## Resolving -/

/-- The request is stored and its script can be run. -/
def World.CanResolve (w : World) (id : RequestID) : Prop :=
  ∃ (r : Request) (c : OracleScript) (code : Bytes), w.store.requests[id]? = some r ∧
    w.store.oracleScripts[r.oracleScriptID]? = some c ∧ w.files.files[c.filename]? = some code

/-- The store without its queue and its results. -/
def Store.unresolved (s : Store) : Store := { s.unqueued with results := ∅ }

/-- The worlds agree on all that is read when a request is resolved. -/
structure Alike (o : Observer k) (w w' : World) : Prop where
  header : w'.header = w.header
  files : w'.files = w.files
  store : w'.store.unresolved = w.store.unresolved
  channels : o.same w.channels w'.channels

lemma Similar.alike (h : Similar o w w') : Alike o w w' :=
  ⟨h.header, h.files, congrArg (fun s : Store => { s with results := ∅ }) h.store, h.channels⟩

lemma Alike.trans {u : World} (h : Alike o u w) (h' : Alike o w w') : Alike o u w' :=
  ⟨h'.header.trans h.header, h'.files.trans h.files, h'.store.trans h.store,
    o.equiv.trans h.channels h'.channels⟩

lemma Alike.symm (h : Alike o w w') : Alike o w' w :=
  ⟨h.header.symm, h.files.symm, h.store.symm, o.equiv.symm h.channels⟩

lemma Alike.read (h : Alike o w w') {β : Type} (f : Store → β)
    (hf : ∀ s, f s.unresolved = f s) : f w'.store = f w.store := by
  rw [← hf, h.store, hf]

lemma Alike.canResolve (h : Alike o w w') {id : RequestID} (hw : w.CanResolve id) :
    w'.CanResolve id := by
  obtain ⟨r, c, code, hr, hc, hcode⟩ := hw
  have hrequests : w'.store.requests = w.store.requests := h.read (·.requests) fun _ => rfl
  have hscripts : w'.store.oracleScripts = w.store.oracleScripts :=
    h.read (·.oracleScripts) fun _ => rfl
  exact ⟨r, c, code, by rw [hrequests, hr], by rw [hscripts, hc], by rw [h.files, hcode]⟩

/-- The world `w'` is `w` after a request was resolved with the given result, which added the
given calls to the history. -/
structure Resolved (o : Observer k) (id : RequestID) (hash : Bytes) (cs : List Call)
    (w w' : World) : Prop where
  header : w'.header = w.header
  files : w'.files = w.files
  staking : w'.staking = w.staking
  store : w'.store = { w.store with results := w.store.results.insert id hash }
  channels : o.same w.channels w'.channels
  trace : w'.trace = w.trace ++ cs

lemma Resolved.alike {id : RequestID} {hash : Bytes} {cs : List Call}
    (h : Resolved o id hash cs w w') : Alike o w w' :=
  ⟨h.header, h.files, by rw [h.store]; rfl, h.channels⟩

/-- A request is resolved alike in worlds that are alike. -/
lemma resolveRequest_alike (h : Alike o w w') {id : RequestID} (hw : w.CanResolve id) :
    ∃ v v' hash cs cs', (resolveRequest k id).run w = .ok () v ∧
      (resolveRequest k id).run w' = .ok () v' ∧ Resolved o id hash cs w v ∧
      Resolved o id hash cs' w' v' ∧ cs.filterMap o.view = cs'.filterMap o.view := by
  obtain ⟨r, c, code, hr, hc, hcode⟩ := hw
  have hrequests : w'.store.requests = w.store.requests := h.read (·.requests) fun _ => rfl
  have hscripts : w'.store.oracleScripts = w.store.oracleScripts :=
    h.read (·.oracleScripts) fun _ => rfl
  have hreports : w'.store.getReports id = w.store.getReports id :=
    h.read (·.getReports id) fun _ => rfl
  have hcount : w'.store.getReportCount id = w.store.getReportCount id :=
    h.read (·.getReportCount id) fun _ => rfl
  obtain ⟨env, henv⟩ := setReports_resolve r w.header.time (w.store.getReports id)
  obtain ⟨exitCode, hexit⟩ : ∃ n, (k.owasm.run code false env).2 = n := ⟨_, rfl⟩
  obtain ⟨retdata, hret⟩ : ∃ b, (k.owasm.run code false env).1.retdata = b := ⟨_, rfl⟩
  have hrun := resolveRequest_eq k hr hc hcode henv
  have hr' : w'.store.requests[id]? = some r := by rw [hrequests, hr]
  have hrun' := resolveRequest_eq k hr' (by rw [hscripts, hc]) (by rw [h.files, hcode])
    (by rw [hreports, h.header]; exact henv)
  rw [hexit, hret] at hrun hrun'
  -- the same record is saved, and then the same response goes out
  obtain ⟨s, hs⟩ : ∃ s, r.saveRecord id (w.store.getReportCount id) w.header.time
      (outcome exitCode retdata).1 (outcome exitCode retdata).2 = s := ⟨_, rfl⟩
  have hid : s.id = id := by rw [← hs]; rfl
  have hsave := saveResult_run (w := w.log [.execute id exitCode retdata]) hr
    (outcome exitCode retdata).1 (outcome exitCode retdata).2
  have hsave' := saveResult_run (w := w'.log [.execute id exitCode retdata]) hr'
    (outcome exitCode retdata).1 (outcome exitCode retdata).2
  have hlog : (w.log [.execute id exitCode retdata]).store.getReportCount id =
      w.store.getReportCount id := rfl
  have hlog' : (w'.log [.execute id exitCode retdata]).store.getReportCount id =
      w.store.getReportCount id := hcount
  have htime : (w.log [.execute id exitCode retdata]).header.time = w.header.time := rfl
  have htime' : (w'.log [.execute id exitCode retdata]).header.time = w.header.time :=
    congrArg Header.time h.header
  rw [hlog, htime, hs] at hsave
  rw [hlog', htime', hs] at hsave'
  obtain ⟨d, d', cs, cs', hresp, hresp', hd, hd', hcs⟩ := o.respond r.ibcInfo
    (r.response id (w.store.getReportCount id) w.header.time (outcome exitCode retdata).1
      (outcome exitCode retdata).2)
    ((w.log [.execute id exitCode retdata]).saveResult s)
    ((w'.log [.execute id exitCode retdata]).saveResult s) h.header h.channels
  have hview : (Call.execute id exitCode retdata :: .saveResult s :: .event s.event :: cs).filterMap
      o.view =
      (Call.execute id exitCode retdata :: .saveResult s :: .event s.event :: cs').filterMap
        o.view := by
    simp only [List.filterMap_cons, hcs]
  refine ⟨_, _, s.hash, _, _, hrun.trans ((run_bind_of_ok hsave).trans hresp),
    hrun'.trans ((run_bind_of_ok hsave').trans hresp'),
    ⟨rfl, rfl, rfl, ?_, hd, ?_⟩, ⟨rfl, rfl, rfl, ?_, hd', ?_⟩, hview⟩
  · rw [← hid]
    rfl
  · simp [World.log, World.saveResult]
  · rw [← hid]
    rfl
  · simp [World.log, World.saveResult]

/-- The worlds are similar, and the given requests can be resolved. -/
def SimilarFor (o : Observer k) (ids : List RequestID) (w w' : World) : Prop :=
  Similar o w w' ∧ ∀ id ∈ ids, w.CanResolve id

variable {ids : List RequestID}

instance : Std.Symm (SimilarFor o ids) where
  symm _ _ h := ⟨Std.Symm.symm _ _ h.1, fun id hid => h.1.alike.canResolve (h.2 id hid)⟩

instance : IsTrans World (SimilarFor o ids) where
  trans _ _ _ h h' := ⟨trans_of (Similar o) h.1 h'.1, h.2⟩

lemma agree_resolveRequest {id : RequestID} (hid : id ∈ ids) :
    Agree (SimilarFor o ids) (resolveRequest k id) := by
  rintro w w' ⟨h, hall⟩
  obtain ⟨v, v', hash, cs, cs', hrun, hrun', hv, hv', hcs⟩ :=
    resolveRequest_alike h.alike (hall id hid)
  refine .of_ok hrun hrun' ⟨⟨?_, ?_, ?_, ?_, ?_, ?_, ?_⟩, fun i hi =>
    hv.alike.canResolve (hall i hi)⟩
  · rw [hv'.header, hv.header, h.header]
  · rw [hv'.files, hv.files, h.files]
  · rw [hv'.staking, hv.staking, h.staking]
  · rw [hv'.store, hv.store]
    exact congrArg (fun s : Store => { s with results := s.results.insert id hash }) h.store
  · rw [hv'.store, hv.store]
    exact h.pending
  · exact o.equiv.trans (o.equiv.symm hv.channels) (o.equiv.trans h.channels hv'.channels)
  · rw [hv.trace, hv'.trace, List.filterMap_append, List.filterMap_append, hcs]
    exact h.trace.append_right _

/-- Two requests can be resolved in any order. -/
lemma resolveRequest_comm {i j : RequestID} (hi : i ∈ ids) (hj : j ∈ ids) (hne : i ≠ j)
    (hw : SimilarFor o ids w w') : AgreeAt (SimilarFor o ids) w w'
      (resolveRequest k i >>= fun _ => resolveRequest k j)
      (resolveRequest k j >>= fun _ => resolveRequest k i) := by
  obtain ⟨h, hall⟩ := hw
  -- `i` in `w`, then `j` there and in `w'`, and then `i` again in `w` and after `j`
  obtain ⟨w₁, _, _, _, _, hi₁, _, hres₁, _⟩ :=
    resolveRequest_alike (Similar.refl o w).alike (hall i hi)
  obtain ⟨w₂, v₁, hash', ds, ds', hj₁, hj₂, hres₂, hres₂', hds⟩ :=
    resolveRequest_alike (hres₁.alike.symm.trans h.alike) (hres₁.alike.canResolve (hall j hj))
  obtain ⟨w₁', v₂, hash, cs, cs', hi₂, hi₃, hres₃, hres₃', hcs⟩ :=
    resolveRequest_alike (h.alike.trans hres₂'.alike) (hall i hi)
  obtain rfl : w₁ = w₁' := (EStateM.Result.ok.inj (hi₁.symm.trans hi₂)).2
  refine .of_ok ((run_bind_of_ok hi₂).trans hj₁) ((run_bind_of_ok hj₂).trans hi₃)
    ⟨⟨?_, ?_, ?_, ?_, ?_, ?_, ?_⟩, fun id hid =>
      (hres₃.alike.trans hres₂.alike).canResolve (hall id hid)⟩
  · rw [hres₃'.header, hres₂'.header, h.header, hres₂.header, hres₃.header]
  · rw [hres₃'.files, hres₂'.files, h.files, hres₂.files, hres₃.files]
  · rw [hres₃'.staking, hres₂'.staking, h.staking, hres₂.staking, hres₃.staking]
  · have hswap := Table.insert_comm w.store.results hash hash' hne
    have hstore := congrArg (fun s : Store =>
      { s with results := (s.results.insert j hash').insert i hash }) h.store
    rw [hres₃'.store, hres₂'.store, hres₂.store, hres₃.store]
    refine hstore.trans ?_
    show ({ w.store.unqueued with
      results := (w.store.results.insert j hash').insert i hash } : Store) = _
    rw [← hswap]
    rfl
  · rw [hres₃'.store, hres₂'.store, hres₂.store, hres₃.store]
    exact h.pending
  · exact o.equiv.trans (o.equiv.symm (o.equiv.trans hres₃.channels hres₂.channels))
      (o.equiv.trans h.channels (o.equiv.trans hres₂'.channels hres₃'.channels))
  · rw [hres₂.trace, hres₃.trace, hres₃'.trace, hres₂'.trace]
    simp only [List.filterMap_append, hcs, hds, List.append_assoc]
    exact h.trace.append List.perm_append_comm

/-- **The end of a block** leads from similar worlds to similar worlds. -/
lemma agree_handleEndBlock (h : Similar o w w') (hnodup : w.store.getPendingResolveList.Nodup)
    (hall : ∀ id ∈ w.store.getPendingResolveList, w.CanResolve id) :
    AgreeAt (Similar o) w w' (handleEndBlock k) (handleEndBlock k) := by
  have hloop := AgreeAt.forM_perm (R := SimilarFor o w.store.getPendingResolveList)
    (f := fun id => resolveRequest k id) h.pending hnodup (fun i hi => agree_resolveRequest hi)
    (fun i hi j hj hne s t hst => resolveRequest_comm hi hj hne hst) ⟨h, hall⟩
  have hrest : Agree (Similar o) (do
      modifyStore fun s => { s with pendingResolveList := some [] }
      processExpiredRequests k) := by
    refine Agree.bind (Agree.modify fun w w' h => ?_) fun _ => agree_processExpiredRequests
    exact ⟨h.header, h.files, h.staking, h.store, .refl _, h.channels, h.trace⟩
  refine AgreeAt.bind (x := forM w.store.getPendingResolveList fun id => resolveRequest k id)
    (y := forM w'.store.getPendingResolveList fun id => resolveRequest k id) ?_ fun _ => hrest
  rcases hloop with ⟨a, s, t, hs, ht, hst⟩ | hfail
  · exact .of_ok hs ht hst.1
  · exact .inr hfail

end

end Bandchain.Oracle
