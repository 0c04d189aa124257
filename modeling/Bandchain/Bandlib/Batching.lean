import Bandchain.Bandlib.Client

/-!
# The batches of the stateful client

However the calls and the loop interleave, the messages are broadcast in the order of their
arrival, each of them once, in batches that are not empty and not too large; every call gets the
outcome of the batch with its message, once.  The loop is never stuck: unless it goes on failing
to fetch a sequence number, all calls get their reply.
-/

namespace Bandchain.Bandlib

variable {Msg Tx Err : Type}

/-! ## Groups of messages -/

/-- Messages that have been broadcast together, and the outcome. -/
abbrev Group (Msg Tx Err : Type) : Type := List (MsgDetail Msg) × Except Err Tx

/-- The gas of some messages, modulo `2 ^ 64`. -/
def gasOf (ds : List (MsgDetail Msg)) : UInt64 := UInt64.ofNat (ds.map (·.gas.toNat)).sum

def feesOf (ds : List (MsgDetail Msg)) : Fees := (ds.map MsgDetail.fees).sum

def batchOf (g : Group Msg Tx Err) : Batch Msg Tx Err :=
  ⟨g.1.map MsgDetail.msg, gasOf g.1, feesOf g.1, g.2⟩

/-- The replies to the calls with these messages. -/
def repliesOf (g : Group Msg Tx Err) : List (ℕ × Except Err Tx) := g.1.map fun d => (d.caller, g.2)

lemma gasOf_append (ds : List (MsgDetail Msg)) (d : MsgDetail Msg) :
    gasOf (ds ++ [d]) = gasOf ds + d.gas := by
  rw [gasOf, gasOf, List.map_append, List.sum_append, UInt64.ofNat_add, List.map_singleton,
    List.sum_singleton, UInt64.ofNat_toNat]

lemma feesOf_append (ds : List (MsgDetail Msg)) (d : MsgDetail Msg) :
    feesOf (ds ++ [d]) = feesOf ds + d.fees := by
  rw [feesOf, feesOf, List.map_append, List.sum_append, List.map_singleton, List.sum_singleton]

lemma map_fst_repliesOf (groups : List (Group Msg Tx Err)) :
    (groups.flatMap repliesOf).map Prod.fst = (groups.flatMap Prod.fst).map MsgDetail.caller := by
  rw [List.map_flatMap, List.map_flatMap]
  refine List.flatMap_congr fun g _ => ?_
  rw [repliesOf, List.map_map]
  rfl

/-! ## The invariant -/

/-- The fields of the client stand for these messages.  While the loop reads there is room for
one more; when it stops there is something to broadcast. -/
structure Holds (maximumMsgPerTx : ℕ) (client : BandStatefulClient Msg)
    (ds : List (MsgDetail Msg)) : Prop where
  msgs_eq : client.msgs = ds.map MsgDetail.msg
  gas_eq : client.totalGas = gasOf ds
  fees_eq : client.totalFees = feesOf ds
  txChans_eq : client.txChans = ds.map MsgDetail.caller
  errChans_eq : client.errChans = ds.map MsgDetail.caller
  reading : client.readMode = true → ds.length < maximumMsgPerTx
  stopped : client.readMode = false → ds ≠ [] ∧ ds.length ≤ maximumMsgPerTx

/-- Where the loop is, given what has been broadcast and what is collected. -/
def PhaseInv (maximumMsgPerTx : ℕ) (s : State Msg Tx Err) (groups : List (Group Msg Tx Err))
    (pending : List (MsgDetail Msg)) : Prop :=
  match s.phase with
  | .selecting =>
    Holds maximumMsgPerTx s.client pending ∧ s.replies = groups.flatMap repliesOf
  | .replying outcome chans =>
    pending = [] ∧ ∃ earlier ds done, groups = earlier ++ [(ds, outcome)] ∧
      ds.map MsgDetail.caller = done ++ chans ∧
      s.replies = earlier.flatMap repliesOf ++ done.map fun c => (c, outcome)

/-- The messages that have arrived are those that have been broadcast, those that the loop has
collected, and those in the channel. -/
structure Batched (maximumMsgPerTx : ℕ) (s : State Msg Tx Err) (groups : List (Group Msg Tx Err))
    (pending : List (MsgDetail Msg)) : Prop where
  arrived_eq : s.arrived = groups.flatMap Prod.fst ++ (pending ++ s.msgChan)
  batches_eq : s.batches = groups.map batchOf
  size : ∀ g ∈ groups, g.1 ≠ [] ∧ g.1.length ≤ maximumMsgPerTx
  phase : PhaseInv maximumMsgPerTx s groups pending

/-- Every call still has its message or has sent it, and then it waits for its reply or has got
it. -/
structure Served (s : State Msg Tx Err) : Prop where
  nodup : s.called.Nodup
  called_perm : s.called.Perm (s.arrived.map MsgDetail.caller ++ s.sending.map MsgDetail.caller)
  arrived_perm : (s.arrived.map MsgDetail.caller).Perm (s.replies.map Prod.fst ++ s.awaiting)

variable {msgCap maximumMsgPerTx : ℕ} {s t : State Msg Tx Err} {l : Label Msg Tx Err}

lemma Holds.clear (hmax : 1 ≤ maximumMsgPerTx) :
    Holds maximumMsgPerTx (.clear : BandStatefulClient Msg) [] where
  msgs_eq := rfl
  gas_eq := rfl
  fees_eq := rfl
  txChans_eq := rfl
  errChans_eq := rfl
  reading _ := hmax
  stopped h := nomatch h

lemma Holds.read {client : BandStatefulClient Msg} {ds : List (MsgDetail Msg)}
    (h : Holds maximumMsgPerTx client ds) (hmode : client.readMode = true) (d : MsgDetail Msg) :
    Holds maximumMsgPerTx (client.read maximumMsgPerTx d) (ds ++ [d]) := by
  have hroom := h.reading hmode
  have hlength : (client.msgs ++ [d.msg]).length = ds.length + 1 := by
    rw [h.msgs_eq, List.length_append, List.length_map]
    rfl
  constructor
  · rw [BandStatefulClient.read, h.msgs_eq, List.map_append, List.map_singleton]
  · rw [BandStatefulClient.read, h.gas_eq, gasOf_append]
  · rw [BandStatefulClient.read, h.fees_eq, feesOf_append]
  · rw [BandStatefulClient.read, h.txChans_eq, List.map_append, List.map_singleton]
  · rw [BandStatefulClient.read, h.errChans_eq, List.map_append, List.map_singleton]
  · intro hread
    rw [BandStatefulClient.read, hlength] at hread
    split_ifs at hread with hfull
    rw [List.length_append, List.length_singleton]
    omega
  · intro _
    rw [List.length_append, List.length_singleton]
    exact ⟨List.append_ne_nil_of_right_ne_nil _ (List.cons_ne_nil _ _), hroom⟩

lemma Holds.chans_eq {client : BandStatefulClient Msg} {ds : List (MsgDetail Msg)}
    (h : Holds maximumMsgPerTx client ds) (outcome : Except Err Tx) :
    client.chans outcome = ds.map MsgDetail.caller := by
  cases outcome with
  | ok tx => exact h.txChans_eq
  | error e => exact h.errChans_eq

/-! ## What the steps preserve -/

lemma Batched.init (hmax : 1 ≤ maximumMsgPerTx) :
    Batched maximumMsgPerTx (State.init : State Msg Tx Err) [] [] where
  arrived_eq := rfl
  batches_eq := rfl
  size := List.forall_mem_nil _
  phase := ⟨Holds.clear hmax, rfl⟩

lemma Served.init : Served (State.init : State Msg Tx Err) where
  nodup := List.nodup_nil
  called_perm := .nil
  arrived_perm := .nil

/-- The phase says what is known of the client. -/
lemma Batched.selecting {groups : List (Group Msg Tx Err)} {pending : List (MsgDetail Msg)}
    (h : Batched maximumMsgPerTx s groups pending) (hphase : s.phase = .selecting) :
    Holds maximumMsgPerTx s.client pending ∧ s.replies = groups.flatMap repliesOf := by
  have hinv := h.phase
  rw [PhaseInv, hphase] at hinv
  exact hinv

lemma Batched.replying {groups : List (Group Msg Tx Err)} {pending : List (MsgDetail Msg)}
    {outcome : Except Err Tx} {chans : List ℕ} (h : Batched maximumMsgPerTx s groups pending)
    (hphase : s.phase = .replying outcome chans) :
    pending = [] ∧ ∃ earlier ds done, groups = earlier ++ [(ds, outcome)] ∧
      ds.map MsgDetail.caller = done ++ chans ∧
      s.replies = earlier.flatMap repliesOf ++ done.map fun c => (c, outcome) := by
  have hinv := h.phase
  rw [PhaseInv, hphase] at hinv
  exact hinv

/-- A batch is what has been collected, a message that is read is collected, and the replies go
on where they are. -/
lemma Batched.step (hmax : 1 ≤ maximumMsgPerTx) (hstep : Step msgCap maximumMsgPerTx s l t)
    {groups : List (Group Msg Tx Err)} {pending : List (MsgDetail Msg)}
    (h : Batched maximumMsgPerTx s groups pending) :
    ∃ groups' pending', Batched maximumMsgPerTx t groups' pending' := by
  cases hstep with
  | call hnew => exact ⟨groups, pending, h.arrived_eq, h.batches_eq, h.size, h.phase⟩
  | send hsending hroom =>
    refine ⟨groups, pending, ?_, h.batches_eq, h.size, h.phase⟩
    rw [h.arrived_eq, List.append_assoc, List.append_assoc]
  | @take d rest hphase hmode hchan =>
    obtain ⟨hholds, hreplies⟩ := h.selecting hphase
    refine ⟨groups, pending ++ [d], ?_, h.batches_eq, h.size, ?_⟩
    · rw [h.arrived_eq, hchan, List.append_assoc, List.singleton_append]
    · rw [PhaseInv]
      simp only [hphase]
      exact ⟨hholds.read hmode d, hreplies⟩
  | @handOff d before after hphase hmode hchan hsending =>
    obtain ⟨hholds, hreplies⟩ := h.selecting hphase
    refine ⟨groups, pending ++ [d], ?_, h.batches_eq, h.size, ?_⟩
    · rw [h.arrived_eq, hchan, List.append_nil, List.append_nil, List.append_assoc]
    · rw [PhaseInv]
      simp only [hphase]
      exact ⟨hholds.read hmode d, hreplies⟩
  | timeout hphase hmode hmsgs =>
    obtain ⟨hholds, hreplies⟩ := h.selecting hphase
    refine ⟨groups, pending, h.arrived_eq, h.batches_eq, h.size, ?_⟩
    rw [PhaseInv]
    simp only [hphase]
    refine ⟨⟨hholds.msgs_eq, hholds.gas_eq, hholds.fees_eq, hholds.txChans_eq,
      hholds.errChans_eq, nofun, fun _ => ⟨?_, (hholds.reading hmode).le⟩⟩, hreplies⟩
    rintro rfl
    rw [hholds.msgs_eq] at hmsgs
    exact hmsgs rfl
  | idle => exact ⟨groups, pending, h⟩
  | fetchFails => exact ⟨groups, pending, h⟩
  | @broadcast outcome hphase hmode =>
    obtain ⟨hholds, hreplies⟩ := h.selecting hphase
    refine ⟨groups ++ [(pending, outcome)], [], ?_, ?_, ?_, ?_⟩
    · rw [h.arrived_eq, List.flatMap_append, List.flatMap_singleton, List.nil_append,
        List.append_assoc]
    · rw [h.batches_eq, List.map_append, List.map_singleton, batchOf, hholds.msgs_eq,
        hholds.gas_eq, hholds.fees_eq]
    · exact List.forall_mem_append.mpr ⟨h.size, List.forall_mem_singleton.mpr
        (hholds.stopped hmode)⟩
    · refine ⟨rfl, groups, pending, [], rfl, (hholds.chans_eq outcome).symm, ?_⟩
      rw [hreplies, List.map_nil, List.append_nil]
  | @reply outcome c rest hphase hawaiting =>
    obtain ⟨rfl, earlier, ds, done, hgroups, hds, hreplies⟩ := h.replying hphase
    refine ⟨groups, [], h.arrived_eq, h.batches_eq, h.size, rfl, earlier, ds, done ++ [c], hgroups,
      ?_, ?_⟩
    · rw [hds, List.append_assoc, List.singleton_append]
    · rw [hreplies, List.append_assoc, List.map_append, List.map_singleton]
  | clear hphase =>
    obtain ⟨rfl, earlier, ds, done, rfl, hds, hreplies⟩ := h.replying hphase
    rw [List.append_nil] at hds
    refine ⟨_, [], h.arrived_eq, h.batches_eq, h.size, Holds.clear hmax, ?_⟩
    rw [hreplies, ← hds, List.flatMap_append, List.flatMap_singleton, List.map_map]
    rfl

/-- A message leaves the calls that hold one and joins those that have arrived. -/
lemma Served.arrive {d : MsgDetail Msg} {before after : List (MsgDetail Msg)} (h : Served s)
    (hsending : s.sending = before ++ d :: after) :
    s.called.Perm ((s.arrived ++ [d]).map MsgDetail.caller ++
        (before ++ after).map MsgDetail.caller) ∧
      ((s.arrived ++ [d]).map MsgDetail.caller).Perm
        (s.replies.map Prod.fst ++ (s.awaiting ++ [d.caller])) := by
  constructor
  · refine h.called_perm.trans ?_
    rw [hsending, List.map_append, List.map_append, List.map_append, List.map_cons,
      List.map_singleton, List.append_assoc]
    exact List.perm_middle.append_left _
  · rw [List.map_append, List.map_singleton, ← List.append_assoc]
    exact h.arrived_perm.append_right _

/-- A call never loses its place, and a reply goes to a call that waits for one. -/
lemma Served.step (hstep : Step msgCap maximumMsgPerTx s l t) (h : Served s) : Served t := by
  cases hstep with
  | @call d hnew =>
    refine ⟨?_, ?_, h.arrived_perm⟩
    · exact List.nodup_append.mpr ⟨h.nodup, List.nodup_singleton _,
        fun c hc c' hc' heq => hnew (List.mem_singleton.mp hc' ▸ heq ▸ hc)⟩
    · rw [List.map_append, List.map_singleton, ← List.append_assoc]
      exact h.called_perm.append_right _
  | send hsending hroom => exact ⟨h.nodup, (h.arrive hsending).1, (h.arrive hsending).2⟩
  | handOff hphase hmode hchan hsending =>
    exact ⟨h.nodup, (h.arrive hsending).1, (h.arrive hsending).2⟩
  | @reply outcome c rest hphase hawaiting =>
    refine ⟨h.nodup, h.called_perm, h.arrived_perm.trans ?_⟩
    rw [List.map_append, List.map_singleton, List.append_assoc, List.singleton_append]
    exact (List.perm_cons_erase hawaiting).append_left _
  | _ => exact ⟨h.nodup, h.called_perm, h.arrived_perm⟩

/-- In every state that the system reaches the messages are batched and the calls are served. -/
lemma invariant_of_reachable (hmax : 1 ≤ maximumMsgPerTx)
    (hs : Reachable (Step msgCap maximumMsgPerTx) (· = State.init) s) :
    (∃ groups pending, Batched maximumMsgPerTx s groups pending) ∧ Served s := by
  refine hs.invariant (I := fun s => (∃ groups pending, Batched maximumMsgPerTx s groups pending) ∧
    Served s) ?_ ?_
  · rintro s rfl
    exact ⟨⟨[], [], .init hmax⟩, .init⟩
  · rintro s l t hstep ⟨⟨groups, pending, hbatched⟩, hserved⟩
    exact ⟨hbatched.step hmax hstep, hserved.step hstep⟩

/-! ## The loop is never stuck -/

/-- The steps that bring the calls closer to their replies. -/
def Label.productive : Label Msg Tx Err → Bool
  | .call _ | .idle | .fetchFails => false
  | _ => true

/-- How far the loop is from the next batch. -/
def BandStatefulClient.rank (client : BandStatefulClient Msg) : ℕ :=
  4 * client.msgs.length + if client.readMode then 1 else 0

/-- How far the calls are from their replies. -/
def State.rank (s : State Msg Tx Err) : ℕ :=
  7 * s.sending.length + 6 * s.msgChan.length +
    match s.phase with
    | .selecting => s.client.rank
    | .replying _ chans => chans.length + 2

lemma rank_read_le {client : BandStatefulClient Msg} (hmode : client.readMode = true)
    (d : MsgDetail Msg) : (client.read maximumMsgPerTx d).rank ≤ client.rank + 4 := by
  have hlength : (client.read maximumMsgPerTx d).msgs.length = client.msgs.length + 1 :=
    List.length_append
  have hread : (if (client.read maximumMsgPerTx d).readMode then 1 else 0) ≤ 1 := by
    split <;> omega
  rw [BandStatefulClient.rank, BandStatefulClient.rank, hlength, if_pos hmode]
  omega

/-- Every step but a new call keeps or lowers the rank, and the productive steps lower it. -/
lemma rank_step (hstep : Step msgCap maximumMsgPerTx s l t) (hcall : ∀ d, l ≠ .call d)
    {groups : List (Group Msg Tx Err)} {pending : List (MsgDetail Msg)}
    (h : Batched maximumMsgPerTx s groups pending) :
    (if l.productive then 1 else 0) + t.rank ≤ s.rank := by
  cases hstep with
  | @call d hnew => exact absurd rfl (hcall d)
  | send hsending hroom =>
    simp only [Label.productive, State.rank, hsending, List.length_append, List.length_cons,
      List.length_nil, if_true]
    omega
  | @take d rest hphase hmode hchan =>
    have hread : (s.client.read maximumMsgPerTx d).rank ≤ s.client.rank + 4 :=
      rank_read_le hmode d
    simp only [Label.productive, State.rank, hphase, hchan, List.length_cons, if_true]
    omega
  | @handOff d before after hphase hmode hchan hsending =>
    have hread : (s.client.read maximumMsgPerTx d).rank ≤ s.client.rank + 4 :=
      rank_read_le hmode d
    simp only [Label.productive, State.rank, hphase, hchan, hsending, List.length_append,
      List.length_cons, if_true]
    omega
  | timeout hphase hmode hmsgs =>
    simp only [Label.productive, State.rank, BandStatefulClient.rank, hphase, hmode, if_true,
      Bool.false_eq_true, if_false]
    omega
  | idle => simp [Label.productive]
  | fetchFails => simp [Label.productive]
  | @broadcast outcome hphase hmode =>
    -- there is something to broadcast, and every message weighs more than its reply
    obtain ⟨hholds, _⟩ := h.selecting hphase
    have hpos := List.length_pos_iff.mpr (hholds.stopped hmode).1
    simp only [Label.productive, State.rank, BandStatefulClient.rank, hphase, hmode,
      hholds.chans_eq, hholds.msgs_eq, List.length_map, if_true, Bool.false_eq_true, if_false]
    omega
  | reply hphase hawaiting =>
    simp only [Label.productive, State.rank, hphase, List.length_cons, if_true]
    omega
  | clear hphase =>
    simp only [Label.productive, State.rank, BandStatefulClient.rank, BandStatefulClient.clear,
      hphase, List.length_nil, if_true]
    omega

/-- Without new calls only so many productive steps can be taken. -/
lemma countP_productive_le (hmax : 1 ≤ maximumMsgPerTx) {ls : List (Label Msg Tx Err)}
    (h : RunWhere (Step msgCap maximumMsgPerTx) (fun _ l => ∀ d, l ≠ .call d) s ls t)
    (hs : ∃ groups pending, Batched maximumMsgPerTx s groups pending) :
    ls.countP Label.productive + t.rank ≤ s.rank := by
  induction h with
  | nil s => simp
  | cons hcall hstep hrun ih =>
    obtain ⟨groups, pending, hbatched⟩ := hs
    have hrank := rank_step hstep hcall hbatched
    have hrest := ih (hbatched.step hmax hstep)
    rw [List.countP_cons]
    omega

/-- The call whose reply is due waits for it. -/
lemma mem_awaiting {groups : List (Group Msg Tx Err)} {pending : List (MsgDetail Msg)}
    {outcome : Except Err Tx} {c : ℕ} {rest : List ℕ}
    (h : Batched maximumMsgPerTx s groups pending) (hserved : Served s)
    (hphase : s.phase = .replying outcome (c :: rest)) : c ∈ s.awaiting := by
  obtain ⟨rfl, earlier, ds, done, rfl, hds, hreplies⟩ := h.replying hphase
  have hperm := hserved.arrived_perm
  have hdone : (done.map fun c => (c, outcome)).map Prod.fst = done := by
    rw [List.map_map]
    exact List.map_id _
  rw [h.arrived_eq, hreplies, List.flatMap_append, List.flatMap_singleton, List.nil_append,
    List.map_append, List.map_append, List.map_append, map_fst_repliesOf, hds, hdone] at hperm
  simp only [List.append_assoc, List.perm_append_left_iff] at hperm
  exact hperm.mem_iff.mp (List.mem_append_left _ List.mem_cons_self)

/-- If no productive step can be taken, nothing is left to be done. -/
lemma quiet_of_unproductive {groups : List (Group Msg Tx Err)} {pending : List (MsgDetail Msg)}
    (h : Batched maximumMsgPerTx s groups pending) (hserved : Served s) (outcome : Except Err Tx)
    (hnone : ∀ l t, Step msgCap maximumMsgPerTx s l t → l.productive = false) :
    pending = [] ∧ s.msgChan = [] ∧ s.sending = [] ∧ s.replies = groups.flatMap repliesOf := by
  have hstuck : ∀ {l t}, Step msgCap maximumMsgPerTx s l t → l.productive = true → False := by
    intro l t hstep hl
    rw [hnone l t hstep] at hl
    cases hl
  cases hphase : s.phase with
  | replying outcome chans =>
    cases chans with
    | nil => exact (hstuck (.clear hphase) rfl).elim
    | cons c rest => exact (hstuck (.reply hphase (mem_awaiting h hserved hphase)) rfl).elim
  | selecting =>
    obtain ⟨hholds, hreplies⟩ := h.selecting hphase
    cases hmode : s.client.readMode with
    | false =>
      have hstep : Step msgCap maximumMsgPerTx s (.broadcast outcome) _ := .broadcast hphase hmode
      exact (hstuck hstep rfl).elim
    | true =>
      cases hchan : s.msgChan with
      | cons d rest => exact (hstuck (.take hphase hmode hchan) rfl).elim
      | nil =>
        cases hsending : s.sending with
        | cons d after =>
          exact (hstuck (.handOff hphase hmode hchan
            (List.nil_append (d :: after) ▸ hsending)) rfl).elim
        | nil =>
          refine ⟨?_, rfl, rfl, hreplies⟩
          by_contra hpending
          refine hstuck (.timeout hphase hmode fun hmsgs => hpending ?_) rfl
          rwa [hholds.msgs_eq, List.length_map, List.length_eq_zero_iff] at hmsgs

/-- The replies so far are the first ones to the calls of the batches. -/
lemma Batched.replies_prefix {groups : List (Group Msg Tx Err)} {pending : List (MsgDetail Msg)}
    (h : Batched maximumMsgPerTx s groups pending) : s.replies <+: groups.flatMap repliesOf := by
  cases hphase : s.phase with
  | selecting =>
    obtain ⟨_, hreplies⟩ := h.selecting hphase
    rw [hreplies]
  | replying outcome chans =>
    obtain ⟨_, earlier, ds, done, rfl, hds, hreplies⟩ := h.replying hphase
    have hlast : repliesOf (ds, outcome) = (done ++ chans).map fun c => (c, outcome) := by
      rw [← hds, List.map_map]
      rfl
    rw [hreplies, List.flatMap_append, List.flatMap_singleton, hlast, List.map_append,
      ← List.append_assoc]
    exact List.prefix_append _ _

lemma flatMap_msgs_batchOf (groups : List (Group Msg Tx Err)) :
    (groups.map batchOf).flatMap Batch.msgs = (groups.flatMap Prod.fst).map MsgDetail.msg := by
  rw [List.flatMap_map, List.map_flatMap]
  rfl

/-- **Batching.**  In every state that the calls and the loop reach, the messages that have arrived
are those of the batches, in order, then those that the loop has collected, then those in the
channel.  Every batch has at least one message and at most `maximumMsgPerTx`, and the gas and the
fees of its messages.  The replies go to the calls of the batches, in order, each with the outcome
of its batch, and no call gets two.  Without new calls only so many productive steps can be taken,
and when none is left every message has been broadcast and every call has its reply. -/
theorem sendTransaction_batches (hmax : 1 ≤ maximumMsgPerTx) (tx : Tx)
    (hs : Reachable (Step msgCap maximumMsgPerTx) (· = (State.init : State Msg Tx Err)) s) :
    (∃ (groups : List (Group Msg Tx Err)) (pending : List (MsgDetail Msg)),
      s.arrived = groups.flatMap Prod.fst ++ (pending ++ s.msgChan) ∧
      s.batches = groups.map batchOf ∧
      (∀ g ∈ groups, g.1 ≠ [] ∧ g.1.length ≤ maximumMsgPerTx) ∧
      s.replies <+: groups.flatMap repliesOf) ∧
    (s.replies.map Prod.fst).Nodup ∧
    (∃ n, ∀ ls t, RunWhere (Step msgCap maximumMsgPerTx) (fun _ l => ∀ d, l ≠ .call d) s ls t →
      ls.countP Label.productive ≤ n) ∧
    ((∀ l t, Step msgCap maximumMsgPerTx s l t → l.productive = false) →
      s.batches.flatMap Batch.msgs = s.arrived.map MsgDetail.msg ∧
        (s.replies.map Prod.fst).Perm s.called) := by
  obtain ⟨⟨groups, pending, hbatched⟩, hserved⟩ := invariant_of_reachable hmax hs
  refine ⟨⟨groups, pending, hbatched.arrived_eq, hbatched.batches_eq, hbatched.size,
    hbatched.replies_prefix⟩, ?_, ?_, ?_⟩
  · have harrived := (List.nodup_append.mp (hserved.called_perm.nodup_iff.mp hserved.nodup)).1
    exact (List.nodup_append.mp (hserved.arrived_perm.nodup_iff.mp harrived)).1
  · refine ⟨s.rank, fun ls t hrun => ?_⟩
    have hcount := countP_productive_le hmax hrun ⟨groups, pending, hbatched⟩
    omega
  · intro hnone
    obtain ⟨rfl, hchan, hsending, hreplies⟩ := quiet_of_unproductive hbatched hserved (.ok tx) hnone
    have harrived := hbatched.arrived_eq
    rw [hchan, List.append_nil, List.append_nil] at harrived
    have hcalled := hserved.called_perm
    rw [hsending, List.map_nil, List.append_nil, harrived] at hcalled
    refine ⟨?_, ?_⟩
    · rw [hbatched.batches_eq, flatMap_msgs_batchOf, harrived]
    · rw [hreplies, map_fst_repliesOf]
      exact hcalled.symm

namespace Sample

def first : MsgDetail String := ⟨"a", 2, 0, 0⟩
def second : MsgDetail String := ⟨"b", 3, 0, 1⟩

/-- Two calls whose messages are broadcast together: the first one finds room in the channel, the
second one hands its message over. -/
lemma exists_run : ∃ s : State String String String,
    Reachable (Step 1 2) (· = State.init) s ∧ s.replies = [(0, .ok "tx"), (1, .ok "tx")] := by
  have hrun : ∃ s : State String String String,
      RunWhere (Step 1 2) (fun _ _ => True) State.init
        [.call first, .send first, .take first, .call second, .handOff second,
          .broadcast (.ok "tx"), .reply 0, .reply 1, .clear] s ∧
        s.replies = [(0, .ok "tx"), (1, .ok "tx")] :=
    ⟨_, .cons trivial (.call (by decide)) <|
      .cons trivial (.send (List.nil_append [first]).symm (by decide)) <|
      .cons trivial (.take rfl rfl rfl) <|
      .cons trivial (.call (by decide)) <|
      .cons trivial (.handOff rfl rfl rfl (List.nil_append [second]).symm) <|
      .cons trivial (.broadcast rfl rfl) <|
      .cons trivial (.reply rfl (by decide)) <|
      .cons trivial (.reply rfl (by decide)) <|
      .cons trivial (.clear rfl) (.nil _), rfl⟩
  obtain ⟨s, hrun, hreplies⟩ := hrun
  exact ⟨s, ⟨_, _, rfl, hrun⟩, hreplies⟩

end Sample

theorem sendTransaction_batches_sample : ∃ s : State String String String,
    s.replies = [(0, .ok "tx"), (1, .ok "tx")] ∧ (s.replies.map Prod.fst).Nodup := by
  obtain ⟨s, hs, hreplies⟩ := Sample.exists_run
  exact ⟨s, hreplies, (sendTransaction_batches (by decide) "tx" hs).2.1⟩

end Bandchain.Bandlib
