import Bandchain.Oracle.Frame

/-!
# The log of checked validators

When a request expires, every validator that was asked is checked once.  A validator that
misses one report too many in a row is jailed, and his counter starts again; it also starts
again when he reports, and when he is not found or found jailed.  The history of a run tells
each check with what it found and what it did, and the counters are read off that history.
-/

namespace Bandchain.Oracle

open Exec

/-! ## The checks in the history -/

/-- One call of `HandleValidatorReport`: the request and the validator, whether he reported, his
consensus address and whether he is jailed if he was found, and the address that was jailed. -/
structure ReportCall where
  request : RequestID
  val : ValAddress
  reported : Bool
  found : Option (Bytes × Bool)
  jails : Option Bytes
deriving DecidableEq

/-- The validator misses a report that counts: he is found and is not jailed. -/
def ReportCall.misses (c : ReportCall) : Bool := !c.reported && c.found.any fun v => !v.2

/-- The call sets the counter of the validator back: he reported, is not found or jailed, or is
jailed by this call. -/
def ReportCall.resets (c : ReportCall) : Bool :=
  c.reported || !(c.found.any fun v => !v.2) || c.jails.isSome

/-- The request that is being processed, and the calls so far, the last one first. -/
structure ReportLog where
  request : RequestID
  calls : List ReportCall

/-- The log after one more entry of the history. -/
def ReportLog.push (log : ReportLog) : Call → ReportLog
  | .processExpired id => { log with request := id }
  | .handleValidatorReport val reported =>
      { log with calls := ⟨log.request, val, reported, none, none⟩ :: log.calls }
  | .stakingValidator _ found =>
      { log with calls := log.calls.modifyHead fun c => { c with found := found } }
  | .jail consAddr =>
      { log with calls := log.calls.modifyHead fun c => { c with jails := some consAddr } }
  | _ => log

def reportLog (t : List Call) : ReportLog := t.foldl ReportLog.push ⟨0, []⟩

/-- The calls of `HandleValidatorReport` in a history, the last one first. -/
def reportCalls (t : List Call) : List ReportCall := (reportLog t).calls

/-- The reports that a validator missed since the last call that set his counter back, in a list
of calls with the last one first. -/
def missedSince (val : ValAddress) (calls : List ReportCall) : ℕ :=
  ((calls.filter fun c => c.val = val).takeWhile fun c => !c.resets).countP fun c => !c.reported

/-- The addresses jailed in a history. -/
def jailed (t : List Call) : List Bytes :=
  t.filterMap fun
    | .jail consAddr => some consAddr
    | _ => none

/-! ## How the log grows -/

/-- The calls that no check makes. -/
def Call.IsUnlogged : Call → Prop
  | .processExpired _ => False
  | .handleValidatorReport _ _ => False
  | .stakingValidator _ _ => False
  | .jail _ => False
  | _ => True

lemma reportLog_append (t u : List Call) :
    reportLog (t ++ u) = u.foldl ReportLog.push (reportLog t) := List.foldl_append

lemma foldl_push_unlogged {cs : List Call} (h : ∀ c ∈ cs, c.IsUnlogged) (log : ReportLog) :
    cs.foldl ReportLog.push log = log := by
  induction cs with
  | nil => rfl
  | cons c cs ih =>
    have hc : log.push c = log := by
      have := h c (by simp)
      cases c <;> first | exact this.elim | rfl
    rw [List.foldl_cons, hc]
    exact ih fun d hd => h d (by simp [hd])

lemma reportLog_unlogged {t cs : List Call} (h : ∀ c ∈ cs, c.IsUnlogged) :
    reportLog (t ++ cs) = reportLog t := by
  rw [reportLog_append, foldl_push_unlogged h]

lemma jailed_append (t u : List Call) : jailed (t ++ u) = jailed t ++ jailed u :=
  List.filterMap_append

lemma jailed_unlogged {cs : List Call} (h : ∀ c ∈ cs, c.IsUnlogged) : jailed cs = [] := by
  rw [jailed, List.filterMap_eq_nil_iff]
  intro c hc
  have := h c hc
  cases c <;> first | exact this.elim | rfl

lemma Sends.isUnlogged {r : Request} {res : OracleResponsePacketData} {cs : List Call}
    (h : Sends r res cs) : ∀ c ∈ cs, c.IsUnlogged := by
  cases h with
  | nothing => simp
  | packet _ _ _ _ => simp [Call.IsUnlogged]

/-- The call that a check of a validator in a world adds to the log. -/
def World.reportCall (w : World) (val : ValAddress) (reported : Bool) : ReportCall where
  request := (reportLog w.trace).request
  val := val
  reported := reported
  found := (w.staking.validator val).map Validator.status
  jails := (w.verdict val reported).2

lemma reportLog_afterReport (k : Keeper) (val : ValAddress) (reported : Bool) (w : World) :
    reportLog (w.afterReport k val reported).trace =
      ⟨(reportLog w.trace).request, w.reportCall val reported :: reportCalls w.trace⟩ := by
  rw [World.afterReport, reportLog_append, World.reportCall]
  cases (w.verdict val reported).2 <;> rfl

lemma jailed_afterReport (k : Keeper) (val : ValAddress) (reported : Bool) (w : World) :
    jailed (w.afterReport k val reported).trace =
      jailed w.trace ++ (w.reportCall val reported).jails.toList := by
  rw [World.afterReport, jailed_append, World.reportCall]
  cases (w.verdict val reported).2 <;> rfl

/-! ## The counters -/

lemma missedSince_cons_ne {val : ValAddress} {c : ReportCall} (h : c.val ≠ val)
    (calls : List ReportCall) : missedSince val (c :: calls) = missedSince val calls := by
  rw [missedSince, List.filter_cons_of_neg (by simpa using h)]
  rfl

lemma missedSince_cons_of_resets {c : ReportCall} (h : c.resets = true) (calls : List ReportCall) :
    missedSince c.val (c :: calls) = 0 := by
  rw [missedSince, List.filter_cons_of_pos (by simp), List.takeWhile_cons_of_neg (by simp [h])]
  rfl

lemma missedSince_cons_of_not_resets {c : ReportCall} (h : c.resets = false)
    (calls : List ReportCall) : missedSince c.val (c :: calls) = missedSince c.val calls + 1 := by
  have hreported : c.reported = false := by
    simp only [ReportCall.resets, Bool.or_eq_false_iff] at h
    exact h.1.1
  rw [missedSince, List.filter_cons_of_pos (by simp), List.takeWhile_cons_of_pos (by simp [h]),
    List.countP_cons_of_pos (by simp [hreported])]
  rfl

/-- Each call jails as it should: the validator that was found, if the report he misses now
makes the counter exceed the maximum. -/
def Judged (max : UInt64) : List ReportCall → Prop
  | [] => True
  | c :: calls => Judged max calls ∧ (∀ consAddr, c.jails = some consAddr →
      c.found = some (consAddr, false)) ∧
      (c.jails.isSome = true ↔
        c.misses = true ∧ max < UInt64.ofNat (missedSince c.val calls + 1))

/-- The counters, the jailings and the history agree. -/
structure World.Counts (max : UInt64) (w : World) : Prop where
  missed : ∀ val, (w.store.getValidatorReportInfoWithDefault val).consecutiveMissed =
    UInt64.ofNat (missedSince val (reportCalls w.trace))
  judged : Judged max (reportCalls w.trace)
  jailed : jailed w.trace = (reportCalls w.trace).reverse.filterMap ReportCall.jails

/-- The verdict on a validator, against the call that is recorded. -/
lemma verdict_cases {w : World} {max : UInt64} (hmax : w.store.params.maxConsecutiveMisses = max)
    {val : ValAddress} (reported : Bool)
    (hmissed : (w.store.getValidatorReportInfoWithDefault val).consecutiveMissed =
      UInt64.ofNat (missedSince val (reportCalls w.trace))) :
    (w.verdict val reported).1 = UInt64.ofNat
        (missedSince val (w.reportCall val reported :: reportCalls w.trace)) ∧
      (∀ consAddr, (w.reportCall val reported).jails = some consAddr →
        (w.reportCall val reported).found = some (consAddr, false)) ∧
      ((w.reportCall val reported).jails.isSome = true ↔
        (w.reportCall val reported).misses = true ∧
          max < UInt64.ofNat (missedSince val (reportCalls w.trace) + 1)) := by
  have hval : (w.reportCall val reported).val = val := rfl
  have hresets := fun h => missedSince_cons_of_resets (c := w.reportCall val reported) h
    (reportCalls w.trace)
  have hcounts := fun h => missedSince_cons_of_not_resets (c := w.reportCall val reported) h
    (reportCalls w.trace)
  rw [hval] at hresets hcounts
  rcases hfound : w.staking.validator val with _ | validator
  · -- not found
    have hverdict : w.verdict val reported = (0, none) := by
      simp [World.verdict, verdict, hfound]
    have hcall : w.reportCall val reported =
        ⟨(reportLog w.trace).request, val, reported, none, none⟩ := by
      simp [World.reportCall, hverdict, hfound]
    rw [hresets (by simp [hcall, ReportCall.resets]), hverdict, hcall]
    exact ⟨rfl, by simp, by simp [ReportCall.misses]⟩
  · by_cases hjailed : validator.jailed = true
    · have hverdict : w.verdict val reported = (0, none) := by
        simp [World.verdict, verdict, hfound, hjailed]
      have hcall : w.reportCall val reported = ⟨(reportLog w.trace).request, val, reported,
          some (validator.consAddr, true), none⟩ := by
        simp [World.reportCall, hverdict, hfound, Validator.status, hjailed]
      rw [hresets (by simp [hcall, ReportCall.resets]), hverdict, hcall]
      exact ⟨rfl, by simp, by simp [ReportCall.misses]⟩
    · rw [Bool.not_eq_true] at hjailed
      cases reported with
      | true =>
        have hverdict : w.verdict val true = (0, none) := by
          simp [World.verdict, verdict, hfound, hjailed]
        have hcall : w.reportCall val true = ⟨(reportLog w.trace).request, val, true,
            some (validator.consAddr, false), none⟩ := by
          simp [World.reportCall, hverdict, hfound, Validator.status, hjailed]
        rw [hresets (by simp [hcall, ReportCall.resets]), hverdict, hcall]
        exact ⟨rfl, by simp, by simp [ReportCall.misses]⟩
      | false =>
        have hnext : (w.store.getValidatorReportInfoWithDefault val).consecutiveMissed + 1 =
            UInt64.ofNat (missedSince val (reportCalls w.trace) + 1) := by
          rw [hmissed, UInt64.ofNat_add]
          rfl
        by_cases hexceeds : max < UInt64.ofNat (missedSince val (reportCalls w.trace) + 1)
        · -- one miss too many
          have hverdict : w.verdict val false = (0, some validator.consAddr) := by
            simp only [World.verdict, verdict, hfound, hjailed, hnext, hmax, Bool.false_eq_true,
              if_false, gt_iff_lt, if_pos hexceeds]
          have hcall : w.reportCall val false = ⟨(reportLog w.trace).request, val, false,
              some (validator.consAddr, false), some validator.consAddr⟩ := by
            simp [World.reportCall, hverdict, hfound, Validator.status, hjailed]
          rw [hresets (by simp [hcall, ReportCall.resets]), hverdict, hcall]
          exact ⟨rfl, by simp, fun _ => ⟨rfl, hexceeds⟩, fun _ => rfl⟩
        · have hverdict : w.verdict val false =
              (UInt64.ofNat (missedSince val (reportCalls w.trace) + 1), none) := by
            simp only [World.verdict, verdict, hfound, hjailed, hnext, hmax, Bool.false_eq_true,
              if_false, gt_iff_lt, if_neg hexceeds]
          have hcall : w.reportCall val false = ⟨(reportLog w.trace).request, val, false,
              some (validator.consAddr, false), none⟩ := by
            simp [World.reportCall, hverdict, hfound, Validator.status, hjailed]
          rw [hcounts (by simp [hcall, ReportCall.resets]), hverdict, hcall]
          exact ⟨rfl, by simp, nofun, fun h => absurd h.2 hexceeds⟩

/-- A check keeps the agreement. -/
lemma World.Counts.afterReport {max : UInt64} {w : World} (h : w.Counts max)
    (hmax : w.store.params.maxConsecutiveMisses = max) (k : Keeper) (val : ValAddress)
    (reported : Bool) : (w.afterReport k val reported).Counts max := by
  obtain ⟨hverdict, hfound, hjails⟩ := verdict_cases hmax reported (h.missed val)
  have hcalls : reportCalls (w.afterReport k val reported).trace =
      w.reportCall val reported :: reportCalls w.trace :=
    congrArg ReportLog.calls (reportLog_afterReport k val reported w)
  refine ⟨fun v => ?_, ?_, ?_⟩
  · have hinfos : (w.afterReport k val reported).store.reportInfos =
        w.store.reportInfos.insert val
          { w.store.getValidatorReportInfoWithDefault val with
            consecutiveMissed := (w.verdict val reported).1 } := rfl
    rw [hcalls, Store.getValidatorReportInfoWithDefault, hinfos]
    by_cases hv : val = v
    · subst hv
      rw [Table.getElem?_insert_self]
      exact hverdict
    · rw [Table.getElem?_insert_ne _ _ hv,
        missedSince_cons_ne (c := w.reportCall val reported) hv]
      exact h.missed v
  · rw [hcalls]
    exact ⟨h.judged, hfound, hjails⟩
  · rw [hcalls, jailed_afterReport, h.jailed, List.reverse_cons, List.filterMap_append]
    rfl

lemma World.Counts.of_same {max : UInt64} {w w' : World} (h : w.Counts max)
    (hinfos : w'.store.reportInfos = w.store.reportInfos)
    (hcalls : reportCalls w'.trace = reportCalls w.trace)
    (hjailed : Oracle.jailed w'.trace = Oracle.jailed w.trace) : w'.Counts max := by
  refine ⟨fun v => ?_, ?_, ?_⟩
  · rw [hcalls, Store.getValidatorReportInfoWithDefault, hinfos]
    exact h.missed v
  · rw [hcalls]
    exact h.judged
  · rw [hcalls, hjailed]
    exact h.jailed

lemma World.Counts.of_unlogged {max : UInt64} {w w' : World} {cs : List Call} (h : w.Counts max)
    (hinfos : w'.store.reportInfos = w.store.reportInfos) (htrace : w'.trace = w.trace ++ cs)
    (hcs : ∀ c ∈ cs, c.IsUnlogged) : w'.Counts max := by
  refine h.of_same hinfos ?_ ?_
  · rw [htrace, reportCalls, reportLog_unlogged hcs]
    rfl
  · rw [htrace, jailed_append, jailed_unlogged hcs, List.append_nil]

/-- The work at the end of a block keeps the agreement while the maximum stays the same. -/
def KeepsCounts (max : UInt64) (w w' : World) : Prop :=
  w.store.params.maxConsecutiveMisses = max ∧ w.Counts max →
    w'.store.params.maxConsecutiveMisses = max ∧ w'.Counts max

instance (max : UInt64) : IsPreorder World (KeepsCounts max) where
  refl _ h := h
  trans _ _ _ h h' := fun hw => h' (h hw)

lemma keepsCounts_unlogged {max : UInt64} {w w' : World} (cs : List Call)
    (hparams : w'.store.params = w.store.params)
    (hinfos : w'.store.reportInfos = w.store.reportInfos) (htrace : w'.trace = w.trace ++ cs)
    (hcs : ∀ c ∈ cs, c.IsUnlogged) : KeepsCounts max w w' := by
  rintro ⟨hmax, hw⟩
  exact ⟨by rw [hparams, hmax], hw.of_unlogged hinfos htrace hcs⟩

lemma endBlockKeeps_counts (k : Keeper) (max : UInt64) : EndBlockKeeps k (KeepsCounts max) where
  record c w hc := by
    cases c with
    | processExpired id =>
      rintro ⟨hmax, hw⟩
      refine ⟨hmax, hw.of_same rfl ?_ ?_⟩
      · rw [reportCalls, World.log, reportLog_append]
        rfl
      · exact (jailed_append w.trace [.processExpired id]).trans (List.append_nil _)
    | execute id exitCode retdata =>
      exact keepsCounts_unlogged [_] rfl rfl rfl (by simp [Call.IsUnlogged])
    | sendPacket p => exact keepsCounts_unlogged [_] rfl rfl rfl (by simp [Call.IsUnlogged])
    | _ => exact hc.elim
  saveResult := by
    refine exits_saveResult (fun c w hc => keepsCounts_unlogged [c] rfl rfl rfl ?_)
      fun w _ _ => keepsCounts_unlogged [] rfl rfl (List.append_nil _).symm (by simp)
    intro d hd
    obtain rfl := List.mem_singleton.mp hd
    rcases hc with hc | ⟨s, rfl⟩
    · cases d <;> first | exact hc.elim | trivial
    · trivial
  pending w := keepsCounts_unlogged [] rfl rfl (List.append_nil _).symm (by simp)
  cursor w id := keepsCounts_unlogged [] rfl rfl (List.append_nil _).symm (by simp)
  report w val reported := by
    rintro ⟨hmax, hw⟩
    exact ⟨hmax, hw.afterReport hmax k val reported⟩
  channels w channels := keepsCounts_unlogged [] rfl rfl (List.append_nil _).symm (by simp)

/-! ## The counters do not wrap around -/

lemma missedSince_le_length (val : ValAddress) (calls : List ReportCall) :
    missedSince val calls ≤ (calls.filter fun c => c.val = val).length :=
  List.countP_le_length.trans (List.takeWhile_sublist _).length_le

lemma toNat_ofNat_of_lt {n : ℕ} (h : n < 2 ^ 64) : (UInt64.ofNat n).toNat = n := by
  rw [UInt64.toNat_ofNat']
  exact Nat.mod_eq_of_lt h

/-- No call of the list has so many calls of its validator before it that the counter wraps. -/
def Short (calls : List ReportCall) : Prop :=
  ∀ val, (calls.filter fun c => c.val = val).length < 2 ^ 64

lemma Short.of_append (newer : List ReportCall) {older : List ReportCall}
    (h : Short (newer ++ older)) : Short older := by
  intro val
  refine lt_of_le_of_lt ?_ (h val)
  rw [List.filter_append, List.length_append]
  omega

/-- The next count of a call does not wrap. -/
lemma Short.next {c : ReportCall} {calls : List ReportCall} (h : Short (c :: calls)) :
    (UInt64.ofNat (missedSince c.val calls + 1)).toNat = missedSince c.val calls + 1 := by
  have hlen := h c.val
  rw [List.filter_cons_of_pos (by simp), List.length_cons] at hlen
  have hle := missedSince_le_length c.val calls
  exact toNat_ofNat_of_lt (by omega)

lemma Judged.of_append {max : UInt64} (newer : List ReportCall) {older : List ReportCall}
    (h : Judged max (newer ++ older)) : Judged max older := by
  induction newer with
  | nil => exact h
  | cons c newer ih => exact ih h.1

/-- The counter never exceeds the maximum. -/
lemma Judged.missedSince_le {max : UInt64} {calls : List ReportCall} (h : Judged max calls)
    (hshort : Short calls) (val : ValAddress) : missedSince val calls ≤ max.toNat := by
  induction calls with
  | nil => exact Nat.zero_le _
  | cons c calls ih =>
    have hle := ih h.1 (hshort.of_append [c])
    by_cases hval : c.val = val
    · subst hval
      cases hresets : c.resets with
      | true =>
        rw [missedSince_cons_of_resets hresets]
        exact Nat.zero_le _
      | false =>
        -- a call that does not set the counter back misses, and does not jail
        simp only [ReportCall.resets, Bool.or_eq_false_iff, Bool.not_eq_false'] at hresets
        obtain ⟨⟨hreported, hfound⟩, hjails⟩ := hresets
        have hmisses : c.misses = true := by
          rw [ReportCall.misses, hreported, hfound]
          rfl
        have hnot : ¬max < UInt64.ofNat (missedSince c.val calls + 1) := by
          intro hlt
          rw [h.2.2.mpr ⟨hmisses, hlt⟩] at hjails
          cases hjails
        rw [UInt64.lt_iff_toNat_lt, hshort.next] at hnot
        rw [missedSince_cons_of_not_resets (by
          simp [ReportCall.resets, hreported, hfound, hjails])]
        omega
    · rw [missedSince_cons_ne hval]
      exact hle

/-- A call jails exactly if it misses and the counter is at the maximum. -/
lemma Judged.jails_iff {max : UInt64} {c : ReportCall} {calls : List ReportCall}
    (h : Judged max (c :: calls)) (hshort : Short (c :: calls)) :
    c.jails.isSome = true ↔ c.misses = true ∧ missedSince c.val calls = max.toNat := by
  have hle := h.1.missedSince_le (hshort.of_append [c]) c.val
  rw [h.2.2, UInt64.lt_iff_toNat_lt, hshort.next]
  exact and_congr_right fun _ => by omega

end Bandchain.Oracle
