import Bandchain.Lib.Program
import Bandchain.Owasm.Host

/-!
# The Wasm machine

`do_run` instantiates the code of a script, looks for the entry point and calls it.  The code talks
to the host functions that it imports, and these to the environment, through the cache of spans.
What the code computes between two calls is not looked into.  The effect of a run on the environment
is that of a list of host calls, and the list depends on the environment at the start only.
-/

namespace Bandchain.Owasm

open Oracle (ExecEnv HostCall Owasm Request newExecEnv)

/-! ## The host functions -/

/-- A call of an imported function.  A function that reads or writes the memory of the instance gets
the cells of a range, or nothing if the range is not in the memory. -/
inductive HostFn
  | gas (gas : UInt32)
  | getCalldataSize
  | readCalldata (cells : Option Bytes)
  | setReturnData (cells : Option Bytes)
  | getAskCount
  | getMinCount
  | getAnsCount
  | askExternalData (eid did : ℤ) (cells : Option Bytes)
  | getExternalDataStatus (eid vid : ℤ)
  | getExternalDataSize (eid vid : ℤ)
  | readExternalData (eid vid : ℤ) (cells : Option Bytes)

/-- What a function returns; those that write to the memory return the new cells. -/
def HostFn.Ret : HostFn → Type
  | gas _ | setReturnData _ | askExternalData _ _ _ => Unit
  | readCalldata _ | readExternalData _ _ _ => Bytes
  | _ => ℤ

/-- Why a call from the host fails. -/
inductive Trap
  | outOfGas
  | outOfBounds
  | unreachable
deriving DecidableEq

structure VMLogic where
  gasLeft : UInt32
  env : EnvIntl

namespace VMLogic

def new (env : EnvIntl) : VMLogic := ⟨100, env⟩

def consumeGas (gas : UInt32) : EStateM Trap VMLogic Unit := do
  let vm ← get
  if vm.gasLeft ≤ gas then throw .outOfGas
  else set { vm with gasLeft := vm.gasLeft - gas }

/-- A host call that changes the environment behind the cache. -/
def apply (call : HostCall) : EStateM Trap VMLogic Unit :=
  modify fun vm => { vm with env := { vm.env with ext := call.apply vm.env.ext } }

def getExternalData (eid vid : ℤ) : EStateM Trap VMLogic Span :=
  modifyGet fun vm =>
    let (span, env) := cGetExternalData vm.env eid vid
    (span, { vm with env := env })

end VMLogic

/-- The cells of a range that has to be in the memory. -/
def inBounds {σ : Type} : Option Bytes → EStateM Trap σ Bytes
  | some cells => return cells
  | none => throw .outOfBounds

/-- Overwrite cells, as far as both the data and the cells go. -/
def overwrite (data cells : Bytes) : Bytes := data.take cells.length ++ cells.drop data.length

/-- The functions that are imported from `env`. -/
def VMLogic.call : (fn : HostFn) → EStateM Trap VMLogic fn.Ret
  | .gas gas => consumeGas gas
  | .getCalldataSize => return ((← get).env.calldata.bytes.length : ℤ)
  | .readCalldata cells => do
    let calldata := (← get).env.calldata
    return overwrite calldata.bytes (← inBounds cells)
  | .setReturnData cells => do apply (.setReturnData (← inBounds cells))
  | .getAskCount => return (← get).env.ext.getAskCount
  | .getMinCount => return (← get).env.ext.getMinCount
  | .getAnsCount => return (← get).env.ext.getAnsCount
  | .askExternalData eid did cells => do apply (.askExternalData eid did (← inBounds cells))
  | .getExternalDataStatus eid vid => return (← get).env.ext.getExternalDataStatus eid vid
  | .getExternalDataSize eid vid => return ((← getExternalData eid vid).bytes.length : ℤ)
  | .readExternalData eid vid cells => do
    let span ← getExternalData eid vid
    return overwrite span.bytes (← inBounds cells)

/-! ## Instances -/

/-- An instance of a module.  In each state of its own its code stops, with a trap or in a state
from which it can be called again, or it calls a host function. -/
structure Instance where
  State : Type
  next : State → Turn HostFn.Ret State (Option State)
  /-- The start function, which runs when the module is instantiated. -/
  start : State
  /-- The exported functions, called in a state. -/
  prepare : Option (State → State)
  execute : Option (State → State)

namespace Instance

def entry (inst : Instance) (isPrepare : Bool) : Option (inst.State → inst.State) :=
  if isPrepare then inst.prepare else inst.execute

section Run

variable {σ : Type} (h : (fn : HostFn) → EStateM Trap σ fn.Ret)

/-- Run the code from a state, for some number of turns.  It may be running still. -/
def call (inst : Instance) (fuel : ℕ) (s : inst.State) : EStateM Trap σ (Option inst.State) := do
  match ← (Turn.unroll inst.next fuel s).run h with
  | none => return none
  | some none => throw .unreachable
  | some (some s') => return some s'

/-- The code that `run` returns, unless the code of the script is running still. -/
def doRun (inst : Option Instance) (isPrepare : Bool) (fuel : ℕ) (t : σ) : Option (ℤ × σ) :=
  match inst with
  | none => some (1, t)
  | some inst =>
    match inst.call h fuel inst.start t with
    | .error _ t => some (1, t)
    | .ok none _ => none
    | .ok (some s) t =>
      match inst.entry isPrepare with
      | none => some (2, t)
      | some function =>
        match inst.call h fuel (function s) t with
        | .error _ t => some (3, t)
        | .ok none _ => none
        | .ok (some _) t => some (0, t)

end Run

section Simulation

variable {σ τ : Type} {R : σ → τ → Prop} {h : (fn : HostFn) → EStateM Trap σ fn.Ret}
  {h' : (fn : HostFn) → EStateM Trap τ fn.Ret} {t : σ} {t' : τ}

lemma call_matches (hsim : ∀ fn t t', R t t' → Program.Matches R (h fn t) (h' fn t'))
    (inst : Instance) (fuel : ℕ) (s : inst.State) (ht : R t t') :
    Program.Matches R (inst.call h fuel s t) (inst.call h' fuel s t') := by
  refine (Program.Matches.run hsim _ ht).bind fun ends u u' hu => ?_
  rcases ends with _ | _ | s'
  · exact .ok none hu
  · exact .error Trap.unreachable hu
  · exact .ok (some s') hu

lemma call_mono {inst : Instance} {fuel more : ℕ} (hmore : fuel ≤ more) {s : inst.State}
    (hends : ∀ u, inst.call h fuel s t ≠ .ok none u) :
    inst.call h more s t = inst.call h fuel s t := by
  have hrun : ∀ u, (Turn.unroll inst.next fuel s).run h t ≠ .ok none u := by
    refine fun u hu => hends u ?_
    show EStateM.bind ((Turn.unroll inst.next fuel s).run h) _ t = _
    rw [EStateM.bind, hu]
    rfl
  show EStateM.bind ((Turn.unroll inst.next more s).run h) _ t =
    EStateM.bind ((Turn.unroll inst.next fuel s).run h) _ t
  rw [EStateM.bind, EStateM.bind, Turn.run_unroll_mono hmore s t hrun]

/-- The end of a run does not depend on for how long it may run. -/
lemma doRun_mono {inst : Option Instance} {isPrepare : Bool} {fuel more : ℕ}
    (hmore : fuel ≤ more) {r : ℤ × σ} (hr : doRun h inst isPrepare fuel t = some r) :
    doRun h inst isPrepare more t = some r := by
  rcases inst with _ | inst
  · exact hr
  · rw [doRun] at hr ⊢
    have hstart : ∀ u, inst.call h fuel inst.start t ≠ .ok none u := by
      intro u hu
      rw [hu] at hr
      cases hr
    rw [call_mono hmore hstart]
    rcases hcall : inst.call h fuel inst.start t with ⟨_ | s, u⟩ | ⟨e, u⟩
    · exact absurd hcall (hstart u)
    · rw [hcall] at hr
      rcases hentry : inst.entry isPrepare with _ | function
      · rwa [hentry] at hr
      · rw [hentry] at hr
        have hfunction : ∀ v, inst.call h fuel (function s) u ≠ .ok none v := by
          intro v hv
          simp only [hv] at hr
          cases hr
        dsimp only at hr ⊢
        rwa [call_mono hmore hfunction]
    · rwa [hcall] at hr

/-- Two handlers that treat every call alike run a script alike. -/
lemma doRun_matches (hsim : ∀ fn t t', R t t' → Program.Matches R (h fn t) (h' fn t'))
    (inst : Option Instance) (isPrepare : Bool) (fuel : ℕ) (ht : R t t') :
    Option.Rel (fun x y => x.1 = y.1 ∧ R x.2 y.2) (doRun h inst isPrepare fuel t)
      (doRun h' inst isPrepare fuel t') := by
  rcases inst with _ | inst
  · exact .some ⟨rfl, ht⟩
  · rw [doRun, doRun]
    have hstart := call_matches hsim inst fuel inst.start ht
    revert hstart
    generalize inst.call h fuel inst.start t = u, inst.call h' fuel inst.start t' = u'
    rintro (⟨ends, hu⟩ | ⟨e, hu⟩)
    · rcases ends with _ | s
      · exact .none
      · rcases hentry : inst.entry isPrepare with _ | function
        · exact .some ⟨rfl, hu⟩
        · have hcall := call_matches hsim inst fuel (function s) hu
          dsimp only
          revert hcall
          generalize inst.call h fuel (function s) _ = v, inst.call h' fuel (function s) _ = v'
          rintro (⟨ends, hv⟩ | ⟨e, hv⟩)
          · rcases ends with _ | s'
            · exact .none
            · exact .some ⟨rfl, hv⟩
          · exact .some ⟨rfl, hv⟩
    · exact .some ⟨rfl, hu⟩

end Simulation

end Instance

/-! ## What a script does to the environment -/

/-- The functions for the environment that a script starts in.  They keep the gas that is left and
the host calls that were made. -/
def answer (env : ExecEnv) : (fn : HostFn) → EStateM Trap (UInt32 × List HostCall) fn.Ret
  | .gas gas => do
    let (gasLeft, calls) ← get
    if gasLeft ≤ gas then throw .outOfGas
    else set (gasLeft - gas, calls)
  | .getCalldataSize => return (env.getCalldata.length : ℤ)
  | .readCalldata cells => return overwrite env.getCalldata (← inBounds cells)
  | .setReturnData cells => do record (.setReturnData (← inBounds cells))
  | .getAskCount => return env.getAskCount
  | .getMinCount => return env.getMinCount
  | .getAnsCount => return env.getAnsCount
  | .askExternalData eid did cells => do record (.askExternalData eid did (← inBounds cells))
  | .getExternalDataStatus eid vid => return env.getExternalDataStatus eid vid
  | .getExternalDataSize eid vid => return ((spanBytes env eid vid).length : ℤ)
  | .readExternalData eid vid cells => return overwrite (spanBytes env eid vid) (← inBounds cells)
where
  record (call : HostCall) : EStateM Trap (UInt32 × List HostCall) Unit :=
    modify fun t => (t.1, t.2 ++ [call])

lemma consumeGas_eq (gas : UInt32) (vm : VMLogic) :
    VMLogic.consumeGas gas vm = if vm.gasLeft ≤ gas then .error .outOfGas vm
      else .ok () { vm with gasLeft := vm.gasLeft - gas } := by
  show (if vm.gasLeft ≤ gas then throw .outOfGas
    else set { vm with gasLeft := vm.gasLeft - gas } : EStateM Trap VMLogic Unit) vm = _
  split_ifs <;> rfl

lemma answer_gas (env : ExecEnv) (gas : UInt32) (t : UInt32 × List HostCall) :
    answer env (.gas gas) t = if t.1 ≤ gas then .error .outOfGas t
      else .ok () (t.1 - gas, t.2) := by
  show (if t.1 ≤ gas then throw .outOfGas
    else set (t.1 - gas, t.2) : EStateM Trap (UInt32 × List HostCall) Unit) t = _
  split_ifs <;> rfl

/-- The state of the machine is that of the environment after the host calls so far. -/
structure Simulates (env : ExecEnv) (vm : VMLogic) (t : UInt32 × List HostCall) : Prop where
  gas_eq : vm.gasLeft = t.1
  calldata_eq : vm.env.calldata = copySpan env.getCalldata
  ext_eq : vm.env.ext = t.2.foldl HostCall.apply env
  serves : vm.env.Serves vm.env.ext

lemma apply_request (env : ExecEnv) (call : HostCall) : (call.apply env).request = env.request := by
  cases call with
  | setReturnData data => rfl
  | askExternalData eid did data =>
    simp only [HostCall.apply, ExecEnv.askExternalData]
    split_ifs <;> rfl

lemma apply_reports (env : ExecEnv) (call : HostCall) : (call.apply env).reports = env.reports := by
  cases call with
  | setReturnData data => rfl
  | askExternalData eid did data =>
    simp only [HostCall.apply, ExecEnv.askExternalData]
    split_ifs <;> rfl

/-- No host call changes what a script can read. -/
lemma request_and_reports_foldl (calls : List HostCall) (env : ExecEnv) :
    (calls.foldl HostCall.apply env).request = env.request ∧
      (calls.foldl HostCall.apply env).reports = env.reports := by
  induction calls generalizing env with
  | nil => exact ⟨rfl, rfl⟩
  | cons call calls ih =>
    obtain ⟨hrequest, hreports⟩ := ih (call.apply env)
    exact ⟨hrequest.trans (apply_request env call), hreports.trans (apply_reports env call)⟩

/-- What a script reads is in the request and the reports. -/
lemma getExternalDataFull_congr {env env' : ExecEnv} (hrequest : env'.request = env.request)
    (hreports : env'.reports = env.reports) (eid vid : ℤ) :
    env'.getExternalDataFull eid vid = env.getExternalDataFull eid vid := by
  rw [ExecEnv.getExternalDataFull, ExecEnv.getExternalDataFull, hrequest, hreports]

lemma spanBytes_congr {env env' : ExecEnv} (hrequest : env'.request = env.request)
    (hreports : env'.reports = env.reports) (eid vid : ℤ) :
    spanBytes env' eid vid = spanBytes env eid vid := by
  rw [spanBytes, spanBytes, ExecEnv.getExternalData, ExecEnv.getExternalData,
    getExternalDataFull_congr hrequest hreports]

/-- The cache stays right when a host call changes the environment behind it. -/
lemma EnvIntl.Serves.apply {env : EnvIntl} (h : env.Serves env.ext) (call : HostCall) :
    EnvIntl.Serves { env with ext := call.apply env.ext } (call.apply env.ext) where
  ext_eq := rfl
  null_eq := h.null_eq
  cached eid vid span hspan := by
    rw [h.cached eid vid span hspan,
      spanBytes_congr (apply_request env.ext call) (apply_reports env.ext call)]

lemma calldata_cGetExternalData (env : EnvIntl) (eid vid : ℤ) :
    (cGetExternalData env eid vid).2.calldata = env.calldata := by
  rw [cGetExternalData]
  cases env.extData[toLex (eid, vid)]? with
  | some span => rfl
  | none => cases env.ext.getExternalData eid vid <;> rfl

namespace Simulates

variable {env : ExecEnv} {vm : VMLogic} {t : UInt32 × List HostCall}

lemma request_eq (h : Simulates env vm t) : vm.env.ext.request = env.request := by
  rw [h.ext_eq, (request_and_reports_foldl t.2 env).1]

lemma reports_eq (h : Simulates env vm t) : vm.env.ext.reports = env.reports := by
  rw [h.ext_eq, (request_and_reports_foldl t.2 env).2]

/-- A host call that changes the environment. -/
lemma apply (h : Simulates env vm t) (call : HostCall) :
    Program.Matches (Simulates env) (VMLogic.apply call vm) (answer.record call t) := by
  refine .ok () ⟨h.gas_eq, h.calldata_eq, ?_, h.serves.apply call⟩
  show call.apply vm.env.ext = (t.2 ++ [call]).foldl HostCall.apply env
  rw [List.foldl_append, h.ext_eq]
  rfl

/-- A read through the cache. -/
lemma getExternalData (h : Simulates env vm t) (eid vid : ℤ) :
    ∃ vm', VMLogic.getExternalData eid vid vm = .ok (copySpan (spanBytes env eid vid)) vm' ∧
      Simulates env vm' t := by
  obtain ⟨hspan, hserves⟩ := h.serves.read eid vid
  rw [spanBytes_congr h.request_eq h.reports_eq] at hspan
  have hext := hserves.ext_eq
  refine ⟨{ vm with env := (cGetExternalData vm.env eid vid).2 }, ?_, h.gas_eq,
    (calldata_cGetExternalData vm.env eid vid).trans h.calldata_eq, hext.trans h.ext_eq,
    by rwa [hext]⟩
  rw [← hspan]
  rfl

/-- The machine answers every call as the environment at the start does. -/
lemma call (h : Simulates env vm t) (fn : HostFn) :
    Program.Matches (Simulates env) (VMLogic.call fn vm) (answer env fn t) := by
  cases fn with
  | gas gas =>
    rw [VMLogic.call, consumeGas_eq, answer_gas, h.gas_eq]
    split_ifs
    · exact .error Trap.outOfGas h
    · exact .ok () ⟨rfl, h.calldata_eq, h.ext_eq, h.serves⟩
  | getCalldataSize =>
    exact .ok_of_eq (congrArg (fun span => (span.bytes.length : ℤ)) h.calldata_eq) h
  | readCalldata cells =>
    cases cells with
    | none => exact .error Trap.outOfBounds h
    | some cells =>
      exact .ok_of_eq (congrArg (fun span => overwrite span.bytes cells) h.calldata_eq) h
  | setReturnData cells =>
    cases cells with
    | none => exact .error Trap.outOfBounds h
    | some cells => exact h.apply (.setReturnData cells)
  | getAskCount =>
    have hcount : vm.env.ext.getAskCount = env.getAskCount := by
      rw [ExecEnv.getAskCount, ExecEnv.getAskCount, h.request_eq]
    exact .ok_of_eq hcount h
  | getMinCount =>
    have hcount : vm.env.ext.getMinCount = env.getMinCount := by
      rw [ExecEnv.getMinCount, ExecEnv.getMinCount, h.request_eq]
    exact .ok_of_eq hcount h
  | getAnsCount =>
    have hcount : vm.env.ext.getAnsCount = env.getAnsCount := by
      rw [ExecEnv.getAnsCount, ExecEnv.getAnsCount, h.reports_eq]
    exact .ok_of_eq hcount h
  | askExternalData eid did cells =>
    cases cells with
    | none => exact .error Trap.outOfBounds h
    | some cells => exact h.apply (.askExternalData eid did cells)
  | getExternalDataStatus eid vid =>
    exact .ok_of_eq
      (congrArg Prod.snd (getExternalDataFull_congr h.request_eq h.reports_eq eid vid)) h
  | getExternalDataSize eid vid =>
    obtain ⟨vm', hread, h'⟩ := h.getExternalData eid vid
    show Program.Matches _ (EStateM.bind (VMLogic.getExternalData eid vid)
      (fun span => EStateM.pure (span.bytes.length : ℤ)) vm) _
    rw [EStateM.bind, hread]
    exact .ok _ h'
  | readExternalData eid vid cells =>
    obtain ⟨vm', hread, h'⟩ := h.getExternalData eid vid
    show Program.Matches _ (EStateM.bind (VMLogic.getExternalData eid vid)
      (fun span => EStateM.bind (inBounds cells) fun cells =>
        EStateM.pure (overwrite span.bytes cells)) vm) _
    rw [EStateM.bind, hread]
    cases cells with
    | none => exact .error Trap.outOfBounds h'
    | some cells => exact .ok _ h'

end Simulates

/-! ## Runs -/

/-- What the scripts do to the environment that they start in. -/
def Describes (vm : Owasm) (instantiate : Bytes → Option Instance) : Prop :=
  ∀ code isPrepare env, ∃ fuel gasLeft,
    Instance.doRun (answer env) (instantiate code) isPrepare fuel (100, []) =
      some ((vm code isPrepare env).2, gasLeft, (vm code isPrepare env).1)

lemma simulates_new (env : ExecEnv) :
    Simulates env (VMLogic.new (createEnvIntl env)) (100, []) :=
  ⟨rfl, rfl, rfl, serves_createEnvIntl env⟩

/-- The machine and the environment at the start run a script alike. -/
lemma exists_doRun_call {inst : Option Instance} {isPrepare : Bool} {env : ExecEnv} {fuel : ℕ}
    {code : ℤ} {t : UInt32 × List HostCall}
    (hrun : Instance.doRun (answer env) inst isPrepare fuel (100, []) = some (code, t)) :
    ∃ vm, Instance.doRun VMLogic.call inst isPrepare fuel (.new (createEnvIntl env)) =
      some (code, vm) ∧ vm.env.ext = t.2.foldl HostCall.apply env := by
  have hrel := Instance.doRun_matches (fun fn _ _ (h : Simulates env _ _) => h.call fn) inst
    isPrepare fuel (simulates_new env)
  rw [hrun] at hrel
  generalize Instance.doRun VMLogic.call inst isPrepare fuel (.new (createEnvIntl env)) = r at hrel
  cases hrel with
  | @some r _ h =>
    obtain ⟨rfl, hsim⟩ : r.1 = code ∧ Simulates env r.2 t := h
    exact ⟨r.2, rfl, hsim.ext_eq⟩

/-- The code of a script that asks for data, and returns a byte. -/
def sampleNext : ℕ → Turn HostFn.Ret ℕ (Option ℕ)
  | 1 => .ask (.gas 1) fun _ => 2
  | 2 => .ask (.askExternalData 1 1 (some [])) fun _ => 0
  | 3 => .ask (.gas 1) fun _ => 4
  | 4 => .ask (.setReturnData (some [7])) fun _ => 0
  | _ => .stop (some 0)

def sampleInstance : Instance := ⟨ℕ, sampleNext, 0, some fun _ => 1, some fun _ => 3⟩

def sampleRequest : Request := ⟨1, [], [List.replicate 20 1], 1, 0, 0, [], none, [1]⟩

def sampleOwasm : Owasm := fun _ isPrepare _ =>
  if isPrepare then ([.askExternalData 1 1 []], 0) else ([.setReturnData [7]], 0)

lemma describes_sampleOwasm : Describes sampleOwasm fun _ => some sampleInstance := by
  intro code isPrepare env
  cases isPrepare with
  | false => exact ⟨3, 99, rfl⟩
  | true => exact ⟨3, 99, rfl⟩

/-- **The Wasm machine.**  A script that runs on the machine, with its gas and its cache, does to
the environment what the host calls do that it makes in the environment at the start. -/
theorem doRun_eq_run (instantiate : Bytes → Option Instance) (vm : Owasm)
    (hvm : Describes vm instantiate) (code : Bytes) (isPrepare : Bool) (env : ExecEnv) :
    ∃ fuel, ∀ more ≥ fuel, ∃ logic : VMLogic,
      Instance.doRun VMLogic.call (instantiate code) isPrepare more (.new (createEnvIntl env)) =
        some ((vm.run code isPrepare env).2, logic) ∧
      logic.env.ext = (vm.run code isPrepare env).1 := by
  obtain ⟨fuel, gasLeft, hrun⟩ := hvm code isPrepare env
  exact ⟨fuel, fun more hmore => exists_doRun_call (Instance.doRun_mono hmore hrun)⟩

theorem doRun_eq_run_sample : ∃ fuel, ∀ more ≥ fuel, ∃ logic : VMLogic,
    Instance.doRun VMLogic.call (some sampleInstance) false more
      (.new (createEnvIntl (newExecEnv sampleRequest 0 0))) = some (0, logic) ∧
    logic.env.ext = (newExecEnv sampleRequest 0 0).setReturnData [7] :=
  doRun_eq_run (fun _ => some sampleInstance) sampleOwasm describes_sampleOwasm [] false
    (newExecEnv sampleRequest 0 0)

/-! ## Gas -/

def HostFn.Charged (fn : HostFn) : Prop := ∃ gas : UInt32, fn = .gas gas ∧ 0 < gas

/-- The code charges for gas so often that it makes fewer than `bound` calls in between. -/
def Instance.Metered (inst : Instance) (bound : ℕ) : Prop :=
  ∃ rank : inst.State → ℕ, (∀ s, rank s < bound) ∧
    ∀ s fn resume, inst.next s = .ask fn resume → ¬fn.Charged → ∀ a, rank (resume a) < rank s

/-- A call uses up the gas that it charges for, and no other call uses any. -/
lemma gas_of_answer {env : ExecEnv} {fn : HostFn} {t t' : UInt32 × List HostCall} {a : fn.Ret}
    (h : answer env fn t = .ok a t') :
    t'.1.toNat ≤ t.1.toNat ∧ (fn.Charged → t'.1.toNat < t.1.toNat) := by
  cases fn with
  | gas gas =>
    rw [answer_gas] at h
    split_ifs at h with hle
    obtain ⟨-, rfl⟩ := EStateM.Result.ok.inj h
    have hlt : gas.toNat < t.1.toNat := UInt32.lt_iff_toNat_lt.mp (UInt32.not_le.mp hle)
    have hsub : (t.1 - gas).toNat = t.1.toNat - gas.toNat :=
      UInt32.toNat_sub_of_le t.1 gas (UInt32.le_iff_toNat_le.mpr hlt.le)
    show (t.1 - gas).toNat ≤ _ ∧ (_ → (t.1 - gas).toNat < _)
    refine ⟨by omega, ?_⟩
    rintro ⟨_, ⟨⟩, hpos⟩
    have hpos' : 0 < gas.toNat := UInt32.lt_iff_toNat_lt.mp hpos
    omega
  | readCalldata cells | setReturnData cells | askExternalData _ _ cells
  | readExternalData _ _ cells =>
    cases cells with
    | none => cases h
    | some cells =>
      obtain ⟨-, rfl⟩ := EStateM.Result.ok.inj h
      exact ⟨le_rfl, by rintro ⟨_, ⟨⟩, _⟩⟩
  | _ =>
    obtain ⟨-, rfl⟩ := EStateM.Result.ok.inj h
    exact ⟨le_rfl, by rintro ⟨_, ⟨⟩, _⟩⟩

namespace Instance

/-- Code that is charged for stops, and has no more gas then. -/
lemma Metered.call {inst : Instance} {bound : ℕ} (h : inst.Metered bound) (env : ExecEnv)
    {fuel : ℕ} (hfuel : 101 * bound ≤ fuel) (s : inst.State) {t : UInt32 × List HostCall}
    (ht : t.1.toNat ≤ 100) :
    (∃ e u, inst.call (answer env) fuel s t = .error e u) ∨
      ∃ s' u, inst.call (answer env) fuel s t = .ok (some s') u ∧ u.1.toNat ≤ 100 := by
  obtain ⟨rank, hbound, hrank⟩ := h
  have hgas : t.1.toNat * bound + rank s < fuel := by
    have hmul := Nat.mul_le_mul_right bound ht
    have := hbound s
    omega
  have hends := Turn.run_unroll_ne_none (h := answer env) (fun t => t.1.toNat)
    (fun fn t a t' hfn => (gas_of_answer hfn).1)
    (fun fn t a t' hcharged hfn => (gas_of_answer hfn).2 hcharged) hrank hbound s t hgas
  show (∃ e u, EStateM.bind ((Turn.unroll inst.next fuel s).run (answer env)) _ t = .error e u) ∨
    ∃ s' u, EStateM.bind ((Turn.unroll inst.next fuel s).run (answer env)) _ t = .ok (some s') u ∧ _
  simp only [EStateM.bind]
  rcases hrun : (Turn.unroll inst.next fuel s).run (answer env) t with ⟨_ | _ | s', u⟩ | ⟨e, u⟩
  · exact absurd hrun (hends u)
  · exact .inl ⟨.unreachable, u, rfl⟩
  · have hu : u.1.toNat ≤ t.1.toNat := Program.invariant_run
      (h := answer env) (I := fun u => u.1.toNat ≤ t.1.toNat)
      (fun fn _ _ _ hfn hle => (gas_of_answer hfn).1.trans hle) _ hrun le_rfl
    exact .inr ⟨s', u, rfl, hu.trans ht⟩
  · exact .inl ⟨e, u, rfl⟩

lemma Metered.doRun {inst : Instance} {bound : ℕ} (h : inst.Metered bound)
    (isPrepare : Bool) (env : ExecEnv) {fuel : ℕ} (hfuel : 101 * bound ≤ fuel) :
    ∃ code t, Instance.doRun (answer env) (some inst) isPrepare fuel (100, []) =
      some (code, t) := by
  have hfull : ((100, []) : UInt32 × List HostCall).1.toNat ≤ 100 := by decide
  rw [Instance.doRun]
  rcases h.call env hfuel inst.start hfull with ⟨e, u, hstart⟩ | ⟨s, u, hstart, hu⟩
  · rw [hstart]
    exact ⟨1, u, rfl⟩
  · rw [hstart]
    rcases inst.entry isPrepare with _ | function
    · exact ⟨2, u, rfl⟩
    · dsimp only
      rcases h.call env hfuel (function s) hu with ⟨e, v, hcall⟩ | ⟨s', v, hcall, -⟩
      · rw [hcall]
        exact ⟨3, v, rfl⟩
      · rw [hcall]
        exact ⟨0, v, rfl⟩

end Instance

/-- **Gas.**  The runs of scripts that are charged for end, so that there is a machine that says
what they do. -/
theorem exists_owasm (instantiate : Bytes → Option Instance) (bound : Bytes → ℕ)
    (hmetered : ∀ code inst, instantiate code = some inst → inst.Metered (bound code)) :
    ∃ vm : Owasm, ∀ code isPrepare env fuel, 101 * bound code ≤ fuel → ∃ logic : VMLogic,
      Instance.doRun VMLogic.call (instantiate code) isPrepare fuel (.new (createEnvIntl env)) =
        some ((vm.run code isPrepare env).2, logic) ∧
      logic.env.ext = (vm.run code isPrepare env).1 := by
  have hruns : ∀ code isPrepare env, ∃ r : List HostCall × ℤ, ∃ gasLeft,
      Instance.doRun (answer env) (instantiate code) isPrepare (101 * bound code) (100, []) =
        some (r.2, gasLeft, r.1) := by
    intro code isPrepare env
    rcases hinst : instantiate code with _ | inst
    · exact ⟨([], 1), 100, rfl⟩
    · obtain ⟨exit, t, hrun⟩ := (hmetered code inst hinst).doRun isPrepare env le_rfl
      exact ⟨(t.2, exit), t.1, hrun⟩
  choose vm hvm using hruns
  refine ⟨vm, fun code isPrepare env fuel hfuel => ?_⟩
  obtain ⟨gasLeft, hrun⟩ := hvm code isPrepare env
  exact exists_doRun_call (Instance.doRun_mono hfuel hrun)

lemma metered_sampleInstance : sampleInstance.Metered 2 := by
  refine ⟨fun s : ℕ => if s = 2 ∨ s = 4 then 1 else 0, fun s => by dsimp only; split_ifs <;> omega,
    fun (s : ℕ) fn resume hnext hfree a => ?_⟩
  rcases s with _ | _ | _ | _ | _ | s
  · cases hnext
  · cases hnext
    exact absurd ⟨1, rfl, by decide⟩ hfree
  · cases hnext
    exact Nat.zero_lt_one
  · cases hnext
    exact absurd ⟨1, rfl, by decide⟩ hfree
  · cases hnext
    exact Nat.zero_lt_one
  · cases hnext

theorem exists_owasm_sample : ∃ vm : Owasm, ∀ code isPrepare env fuel, 101 * 2 ≤ fuel →
    ∃ logic : VMLogic,
      Instance.doRun VMLogic.call (some sampleInstance) isPrepare fuel (.new (createEnvIntl env)) =
        some ((vm.run code isPrepare env).2, logic) ∧
      logic.env.ext = (vm.run code isPrepare env).1 :=
  exists_owasm (fun _ => some sampleInstance) (fun _ => 2) fun _ _ h =>
    Option.some.inj h ▸ metered_sampleInstance

end Bandchain.Owasm
