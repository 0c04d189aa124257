import Bandchain.Obi.Agreement
import Bandchain.Oracle.Refinement
import Bandchain.Owasm.Machine

/-!
# Scripts

An oracle script is written against a library that wraps the host functions, and two macros make the
entry points of a module out of two functions of the script.  The macros decode the calldata as the
type of the input, and encode the output of the script as the data to return.  A module that is
compiled from a script makes its host calls, charges for gas in between, and may trap.
-/

namespace Bandchain.Owasm

open Obi.Rust (Ty tryFromSlice tryToVec)
open Oracle (ExecEnv HostCall Owasm newExecEnv)

/-! ## The library -/

/-- Code that calls host functions. -/
abbrev Hosted (α : Type) : Type := Program HostFn.Ret α

/-- Code of a script, which returns nothing if it panics. -/
abbrev Script (α : Type) : Type := Hosted (Option α)

def host (fn : HostFn) : Hosted fn.Ret := Program.request fn

namespace Oei

def getCalldata : Hosted Bytes :=
  (host .getCalldataSize).bind fun (dataSize : ℤ) =>
    host (.readCalldata (some (List.replicate dataSize.toNat 0)))

def saveReturnData (data : Bytes) : Hosted Unit := host (.setReturnData (some data))

end Oei

/-! ## The macros -/

def prepareEntryPoint (Input : Ty) (name : Input.Val → Script Unit) : Script Unit :=
  Oei.getCalldata.bind fun calldata =>
    match tryFromSlice Input calldata with
    | .error _ => .pure none
    | .ok input => name input

/-- What `execute` does with the output of the script. -/
def saveOutput (Output : Ty) : Option Output.Val → Script Unit
  | none => .pure none
  | some output =>
    match tryToVec Output output with
    | .error _ => .pure none
    | .ok data => (Oei.saveReturnData data).bind fun _ => .pure (some ())

def executeEntryPoint (Input Output : Ty) (name : Input.Val → Script Output.Val) : Script Unit :=
  Oei.getCalldata.bind fun calldata =>
    match tryFromSlice Input calldata with
    | .error _ => .pure none
    | .ok input => (name input).bind (saveOutput Output)

/-! ## Compiled scripts -/

/-- From a state, an instance makes the host calls of a script, and charges for gas in between.  It
may trap where the script does not. -/
inductive Implements (inst : Instance) : inst.State → Script Unit → Prop
  | returns {s s' : inst.State} (hnext : inst.next s = .stop (some s')) :
      Implements inst s (.pure (some ()))
  | traps {s : inst.State} {p : Script Unit} (hnext : inst.next s = .stop none) :
      Implements inst s p
  | charges {s : inst.State} {p : Script Unit} {gas : UInt32} {resume : Unit → inst.State}
      (hnext : inst.next s = .ask (.gas gas) resume) (h : Implements inst (resume ()) p) :
      Implements inst s p
  | calls {s : inst.State} {fn : HostFn} {resume : fn.Ret → inst.State}
      {next : fn.Ret → Script Unit} (hnext : inst.next s = .ask fn resume)
      (hfn : ∀ gas, fn ≠ .gas gas) (h : ∀ a, Implements inst (resume a) (next a)) :
      Implements inst s (.call fn next)

/-- A function other than `gas` returns and does the same in every state. -/
lemma answer_congr {env : ExecEnv} {fn : HostFn} (hfn : ∀ gas, fn ≠ .gas gas)
    {t t' : UInt32 × List HostCall} {a : fn.Ret} (h : answer env fn t = .ok a t')
    (t₀ : UInt32 × List HostCall) :
    ∃ t₀' calls, answer env fn t₀ = .ok a t₀' ∧ t'.2 = t.2 ++ calls ∧ t₀'.2 = t₀.2 ++ calls := by
  cases fn with
  | gas gas => exact absurd rfl (hfn gas)
  | setReturnData cells | askExternalData _ _ cells =>
    cases cells with
    | none => cases h
    | some cells =>
      obtain ⟨rfl, rfl⟩ := EStateM.Result.ok.inj h
      exact ⟨_, [_], rfl, rfl, rfl⟩
  | readCalldata cells | readExternalData _ _ cells =>
    cases cells with
    | none => cases h
    | some cells =>
      obtain ⟨rfl, rfl⟩ := EStateM.Result.ok.inj h
      exact ⟨t₀, [], rfl, (List.append_nil _).symm, (List.append_nil _).symm⟩
  | _ =>
    obtain ⟨rfl, rfl⟩ := EStateM.Result.ok.inj h
    exact ⟨t₀, [], rfl, (List.append_nil _).symm, (List.append_nil _).symm⟩

/-- A run of a compiled script that returns makes the host calls of the script. -/
lemma Implements.run {inst : Instance} {env : ExecEnv} {s s' : inst.State} {p : Script Unit}
    (h : Implements inst s p) {n : ℕ} {t u : UInt32 × List HostCall}
    (hrun : (Turn.unroll inst.next n s).run (answer env) t = .ok (some (some s')) u)
    (t₀ : UInt32 × List HostCall) :
    ∃ u₀ calls, p.run (answer env) t₀ = .ok (some ()) u₀ ∧ u.2 = t.2 ++ calls ∧
      u₀.2 = t₀.2 ++ calls := by
  induction h generalizing n t t₀ with
  | returns hnext =>
    cases n with
    | zero => cases hrun
    | succ n =>
      rw [Turn.unroll_of_stop hnext] at hrun
      obtain ⟨-, rfl⟩ := EStateM.Result.ok.inj hrun
      exact ⟨t₀, [], rfl, (List.append_nil _).symm, (List.append_nil _).symm⟩
  | traps hnext =>
    cases n with
    | zero => cases hrun
    | succ n =>
      rw [Turn.unroll_of_stop hnext] at hrun
      cases hrun
  | @charges s p gas resume hnext h ih =>
    cases n with
    | zero => cases hrun
    | succ n =>
      rw [Turn.unroll_of_ask hnext] at hrun
      by_cases hgas : t.1 ≤ gas
      · have hcall : answer env (.gas gas) t = .error .outOfGas t := by rw [answer_gas, if_pos hgas]
        rw [Program.run_call_of_error hcall] at hrun
        cases hrun
      · have hcall : answer env (.gas gas) t = .ok () (t.1 - gas, t.2) := by
          rw [answer_gas, if_neg hgas]
        rw [Program.run_call_of_ok hcall] at hrun
        exact ih (t := (t.1 - gas, t.2)) hrun t₀
  | @calls s fn resume next hnext hfn h ih =>
    cases n with
    | zero => cases hrun
    | succ n =>
      rw [Turn.unroll_of_ask hnext] at hrun
      cases hcall : answer env fn t with
      | ok a t' =>
        rw [Program.run_call_of_ok hcall] at hrun
        obtain ⟨t₀', calls, hcall₀, ht', ht₀'⟩ := answer_congr hfn hcall t₀
        obtain ⟨u₀, calls', hrun₀, hu, hu₀⟩ := ih a hrun t₀'
        refine ⟨u₀, calls ++ calls', by rw [Program.run_call_of_ok hcall₀, hrun₀], ?_, ?_⟩
        · rw [hu, ht', List.append_assoc]
        · rw [hu₀, ht₀', List.append_assoc]
      | error e t' =>
        rw [Program.run_call_of_error hcall] at hrun
        cases hrun

/-- A call that returns is a run that ends. -/
lemma exists_unroll_of_call {σ : Type} {h : (fn : HostFn) → EStateM Trap σ fn.Ret} {inst : Instance}
    {fuel : ℕ} {s s' : inst.State} {t u : σ} (hcall : inst.call h fuel s t = .ok (some s') u) :
    (Turn.unroll inst.next fuel s).run h t = .ok (some (some s')) u := by
  have hbind : inst.call h fuel s t = EStateM.bind ((Turn.unroll inst.next fuel s).run h) _ t := rfl
  rw [hbind, EStateM.bind] at hcall
  rcases hrun : (Turn.unroll inst.next fuel s).run h t with ⟨_ | _ | s₁, v⟩ | ⟨e, v⟩
  · rw [hrun] at hcall
    cases hcall
  · rw [hrun] at hcall
    cases hcall
  · rw [hrun] at hcall
    obtain ⟨hs, rfl⟩ := EStateM.Result.ok.inj hcall
    rw [Option.some.inj hs]
  · rw [hrun] at hcall
    cases hcall

/-- A run with the code 0 is that of the start function, and then that of the entry point. -/
lemma exists_calls_of_doRun {σ : Type} {h : (fn : HostFn) → EStateM Trap σ fn.Ret}
    {inst : Instance} {isPrepare : Bool} {fuel : ℕ} {t u : σ}
    (hrun : Instance.doRun h (some inst) isPrepare fuel t = some (0, u)) :
    ∃ s v function s', inst.entry isPrepare = some function ∧
      inst.call h fuel inst.start t = .ok (some s) v ∧
      inst.call h fuel (function s) v = .ok (some s') u := by
  rw [Instance.doRun] at hrun
  rcases hstart : inst.call h fuel inst.start t with ⟨_ | s, v⟩ | ⟨e, v⟩
  · rw [hstart] at hrun
    cases hrun
  · rw [hstart] at hrun
    rcases hentry : inst.entry isPrepare with _ | function
    · rw [hentry] at hrun
      cases hrun
    · rw [hentry] at hrun
      dsimp only at hrun
      rcases hcall : inst.call h fuel (function s) v with ⟨_ | s', v'⟩ | ⟨e, v'⟩
      · rw [hcall] at hrun
        cases hrun
      · rw [hcall] at hrun
        obtain rfl : v' = u := congrArg Prod.snd (Option.some.inj hrun)
        exact ⟨s, v, function, s', rfl, rfl, hcall⟩
      · rw [hcall] at hrun
        cases hrun
  · rw [hstart] at hrun
    cases hrun

/-! ## Entry points -/

lemma overwrite_replicate (data : Bytes) :
    overwrite data (List.replicate data.length 0) = data := by
  rw [overwrite, List.length_replicate, List.take_length,
    List.drop_eq_nil_of_le List.length_replicate.le, List.append_nil]

lemma run_getCalldata (env : ExecEnv) (t : UInt32 × List HostCall) :
    Oei.getCalldata.run (answer env) t = .ok env.getCalldata t :=
  congrArg (EStateM.Result.ok · t) (overwrite_replicate env.getCalldata)

section EntryPoint

variable {env : ExecEnv} {Input Output : Ty} {t u : UInt32 × List HostCall}

lemma run_saveOutput {output : Option Output.Val}
    (h : (saveOutput Output output).run (answer env) t = .ok (some ()) u) :
    ∃ v, output = some v ∧
      u = (t.1, t.2 ++ [.setReturnData (Obi.Rust.encode Output v)]) := by
  cases output with
  | none => cases h
  | some v => exact ⟨v, rfl, (EStateM.Result.ok.inj h).2.symm⟩

/-- `execute` returns only if the calldata is that of an input, and the script has an output for it,
which is what it then returns. -/
lemma run_executeEntryPoint {name : Input.Val → Script Output.Val}
    (h : (executeEntryPoint Input Output name).run (answer env) t = .ok (some ()) u) :
    ∃ input output v, tryFromSlice Input env.getCalldata = .ok input ∧
      (name input).run (answer env) t = .ok (some output) v ∧
      u.2 = v.2 ++ [.setReturnData (Obi.Rust.encode Output output)] := by
  rw [executeEntryPoint, Program.run_bind, EStateM.bind, run_getCalldata] at h
  cases hinput : tryFromSlice Input env.getCalldata with
  | error e =>
    simp only [hinput] at h
    cases h
  | ok input =>
    simp only [hinput, Program.run_bind, EStateM.bind] at h
    cases hname : (name input).run (answer env) t with
    | error e v =>
      rw [hname] at h
      cases h
    | ok output v =>
      rw [hname] at h
      obtain ⟨output, rfl, rfl⟩ := run_saveOutput h
      exact ⟨input, output, v, rfl, hname, rfl⟩

end EntryPoint

/-- The exported function is compiled from a script. -/
def Exports (inst : Instance) (isPrepare : Bool) (p : Script Unit) : Prop :=
  ∃ function, inst.entry isPrepare = some function ∧ ∀ s, Implements inst (function s) p

/-- The entry points of the instance are those that the macros make. -/
structure FromMacros (inst : Instance) (Input Output : Ty) (prepareImpl : Input.Val → Script Unit)
    (executeImpl : Input.Val → Script Output.Val) : Prop where
  prepare : Exports inst true (prepareEntryPoint Input prepareImpl)
  execute : Exports inst false (executeEntryPoint Input Output executeImpl)

section Run

variable {instantiate : Bytes → Option Instance} {vm : Owasm} {code : Bytes} {inst : Instance}
  {Input Output : Ty} {prepareImpl : Input.Val → Script Unit}
  {executeImpl : Input.Val → Script Output.Val} {env : ExecEnv}

/-- The code 0 of an entry point is that of a run of the script. -/
lemma run_of_zero (hvm : Describes vm instantiate) (hinst : instantiate code = some inst)
    {isPrepare : Bool} {p : Script Unit} (hp : Exports inst isPrepare p)
    (hzero : (vm.run code isPrepare env).2 = 0) :
    ∃ u before, p.run (answer env) (100, []) = .ok (some ()) u ∧
      (vm code isPrepare env).1 = before ++ u.2 := by
  obtain ⟨fuel, gasLeft, hrun⟩ := hvm code isPrepare env
  have hcode : (vm code isPrepare env).2 = 0 := hzero
  rw [hinst, hcode] at hrun
  obtain ⟨s, v, function, s', hentry, -, hcall⟩ := exists_calls_of_doRun hrun
  obtain ⟨function', hentry', himpl⟩ := hp
  obtain rfl : function = function' := Option.some.inj (hentry.symm.trans hentry')
  obtain ⟨u, calls, hrun₀, hcalls, hu⟩ := (himpl s).run (exists_unroll_of_call hcall) (100, [])
  exact ⟨u, v.2, hrun₀, by rw [hu]; exact hcalls⟩

/-- The script prepares a request only if the calldata is that of an input. -/
lemma exists_input_of_prepare (hvm : Describes vm instantiate)
    (hinst : instantiate code = some inst)
    (hscript : FromMacros inst Input Output prepareImpl executeImpl)
    (hzero : (vm.run code true env).2 = 0) :
    ∃ input, tryFromSlice Input env.getCalldata = .ok input := by
  obtain ⟨u, before, hrun, -⟩ := run_of_zero hvm hinst hscript.prepare hzero
  rw [prepareEntryPoint, Program.run_bind, EStateM.bind, run_getCalldata] at hrun
  cases hinput : tryFromSlice Input env.getCalldata with
  | ok input => exact ⟨input, rfl⟩
  | error e =>
    simp only [hinput] at hrun
    cases hrun

/-- The script executes only if it has an output for the calldata, and its encoding is then the data
to return. -/
lemma retdata_of_execute (hvm : Describes vm instantiate) (hinst : instantiate code = some inst)
    (hscript : FromMacros inst Input Output prepareImpl executeImpl)
    (hzero : (vm.run code false env).2 = 0) :
    ∃ input output u, tryFromSlice Input env.getCalldata = .ok input ∧
      (executeImpl input).run (answer env) (100, []) = .ok (some output) u ∧
      (vm.run code false env).1.retdata = Obi.Rust.encode Output output := by
  obtain ⟨u₀, before, hrun, hcalls⟩ := run_of_zero hvm hinst hscript.execute hzero
  obtain ⟨input, output, u, hinput, hname, hu⟩ := run_executeEntryPoint hrun
  refine ⟨input, output, u, hinput, hname, ?_⟩
  rw [Owasm.run, hcalls, hu, ← List.append_assoc, List.foldl_append]
  rfl

end Run

/-! ## Scripts without gas -/

/-- A script as code that makes its host calls and no others. -/
def Script.next : Script Unit → Turn HostFn.Ret (Script Unit) (Option (Script Unit))
  | .pure none => .stop none
  | .pure (some ()) => .stop (some (.pure (some ())))
  | .call fn next => .ask fn next

def compile (prepare execute : Script Unit) : Instance :=
  ⟨Script Unit, Script.next, .pure (some ()), some fun _ => prepare, some fun _ => execute⟩

/-- The code does not call `gas` itself. -/
def NoGas {α : Type} : Hosted α → Prop
  | .pure _ => True
  | .call fn next => (∀ gas, fn ≠ .gas gas) ∧ ∀ a, NoGas (next a)

lemma NoGas.bind {α β : Type} {p : Hosted α} {f : α → Hosted β} (hp : NoGas p)
    (hf : ∀ a, NoGas (f a)) : NoGas (Program.bind p f) := by
  induction p with
  | pure a => exact hf a
  | call fn next ih => exact ⟨hp.1, fun a => ih a (hp.2 a)⟩

lemma noGas_getCalldata : NoGas Oei.getCalldata :=
  ⟨by rintro gas ⟨⟩, fun _ => ⟨by rintro gas ⟨⟩, fun _ => trivial⟩⟩

lemma noGas_prepareEntryPoint {Input : Ty} {name : Input.Val → Script Unit}
    (h : ∀ input, NoGas (name input)) : NoGas (prepareEntryPoint Input name) := by
  refine noGas_getCalldata.bind fun calldata => ?_
  cases tryFromSlice Input calldata with
  | error e => trivial
  | ok input => exact h input

lemma noGas_executeEntryPoint {Input Output : Ty} {name : Input.Val → Script Output.Val}
    (h : ∀ input, NoGas (name input)) : NoGas (executeEntryPoint Input Output name) := by
  refine noGas_getCalldata.bind fun calldata => ?_
  cases tryFromSlice Input calldata with
  | error e => trivial
  | ok input =>
    refine (h input).bind fun output => ?_
    cases output with
    | none => trivial
    | some output => exact ⟨by rintro gas ⟨⟩, fun _ => trivial⟩

lemma implements_compile {prepare execute p : Script Unit} (hp : NoGas p) :
    Implements (compile prepare execute) p p := by
  induction p with
  | pure r =>
    rcases r with _ | _
    · exact .traps rfl
    · have hnext : (compile prepare execute).next (.pure (some ())) =
          .stop (some (.pure (some ()))) := rfl
      exact .returns hnext
  | call fn next ih => exact .calls rfl hp.1 fun a => ih a (hp.2 a)

/-- The end of a script as that of its code. -/
def ended {σ : Type} :
    EStateM.Result Trap σ (Option Unit) → EStateM.Result Trap σ (Option (Script Unit))
  | .ok (some ()) u => .ok (some (.pure (some ()))) u
  | .ok none u => .error .unreachable u
  | .error e u => .error e u

lemma ended_ne_none {σ : Type} (r : EStateM.Result Trap σ (Option Unit)) (u : σ) :
    ended r ≠ .ok none u := by
  rcases r with ⟨_ | _, v⟩ | ⟨e, v⟩
  all_goals rintro ⟨⟩

section Call

variable {σ : Type} {h : (fn : HostFn) → EStateM Trap σ fn.Ret} {inst : Instance} {s : inst.State}
  {fn : HostFn} {resume : fn.Ret → inst.State} {t t' : σ}

lemma call_of_ok (hnext : inst.next s = .ask fn resume) {a : fn.Ret} (hfn : h fn t = .ok a t')
    (fuel : ℕ) : inst.call h (fuel + 1) s t = inst.call h fuel (resume a) t' := by
  show EStateM.bind ((Turn.unroll inst.next (fuel + 1) s).run h) _ t =
    EStateM.bind ((Turn.unroll inst.next fuel (resume a)).run h) _ t'
  rw [Turn.unroll_of_ask hnext, EStateM.bind, EStateM.bind, Program.run_call_of_ok hfn]

lemma call_of_error (hnext : inst.next s = .ask fn resume) {e : Trap} (hfn : h fn t = .error e t')
    (fuel : ℕ) : inst.call h (fuel + 1) s t = .error e t' := by
  show EStateM.bind ((Turn.unroll inst.next (fuel + 1) s).run h) _ t = _
  rw [Turn.unroll_of_ask hnext, EStateM.bind, Program.run_call_of_error hfn]

lemma doRun_of_ok {isPrepare : Bool} {fuel : ℕ} {function : inst.State → inst.State}
    (hstart : inst.call h fuel inst.start t = .ok (some s) t')
    (hentry : inst.entry isPrepare = some function) {s' : inst.State} {u : σ}
    (hcall : inst.call h fuel (function s) t' = .ok (some s') u) :
    Instance.doRun h (some inst) isPrepare fuel t = some (0, u) := by
  rw [Instance.doRun, hstart]
  dsimp only
  rw [hentry]
  dsimp only
  rw [hcall]

lemma doRun_of_error {isPrepare : Bool} {fuel : ℕ} {function : inst.State → inst.State}
    (hstart : inst.call h fuel inst.start t = .ok (some s) t')
    (hentry : inst.entry isPrepare = some function) {e : Trap} {u : σ}
    (hcall : inst.call h fuel (function s) t' = .error e u) :
    Instance.doRun h (some inst) isPrepare fuel t = some (3, u) := by
  rw [Instance.doRun, hstart]
  dsimp only
  rw [hentry]
  dsimp only
  rw [hcall]

end Call

lemma exists_call_compile {σ : Type} (h : (fn : HostFn) → EStateM Trap σ fn.Ret)
    (prepare execute p : Script Unit) (t : σ) :
    ∃ fuel, (compile prepare execute).call h fuel p t = ended (p.run h t) := by
  induction p generalizing t with
  | pure r =>
    refine ⟨1, ?_⟩
    rcases r with _ | _ <;> rfl
  | call fn next ih =>
    cases hfn : h fn t with
    | ok a t' =>
      obtain ⟨fuel, hcall⟩ := ih a t'
      have hend : (Program.call fn next).run h t = (next a).run h t' := Program.run_call_of_ok hfn
      rw [hend]
      exact ⟨fuel + 1, (call_of_ok rfl hfn fuel).trans hcall⟩
    | error e t' =>
      have hend : (Program.call fn next).run h t = .error e t' := Program.run_call_of_error hfn
      rw [hend]
      exact ⟨1, call_of_error rfl hfn 0⟩

/-- The host calls and the code of a run. -/
def exitOf : EStateM.Result Trap (UInt32 × List HostCall) (Option Unit) → List HostCall × ℤ
  | .ok (some ()) u => (u.2, 0)
  | .ok none u => (u.2, 3)
  | .error _ u => (u.2, 3)

/-- What a script does to the environment. -/
def owasmOf (prepare execute : Script Unit) : Owasm := fun _ isPrepare env =>
  exitOf ((if isPrepare then prepare else execute).run (answer env) (100, []))

lemma describes_owasmOf (prepare execute : Script Unit) :
    Describes (owasmOf prepare execute) fun _ => some (compile prepare execute) := by
  intro code isPrepare env
  obtain ⟨p, hp⟩ : ∃ p, (if isPrepare then prepare else execute) = p := ⟨_, rfl⟩
  obtain ⟨fuel, hcall⟩ := exists_call_compile (answer env) prepare execute p (100, [])
  have hstart : (compile prepare execute).call (answer env) (fuel + 1)
      (compile prepare execute).start (100, []) = .ok (some (.pure (some ()))) (100, []) := rfl
  have hentry : (compile prepare execute).entry isPrepare = some fun _ => p := by
    rw [← hp]
    cases isPrepare <;> rfl
  have hmore : (compile prepare execute).call (answer env) (fuel + 1) p (100, []) =
      ended (p.run (answer env) (100, [])) := by
    rw [← hcall]
    exact Instance.call_mono (Nat.le_succ fuel) fun u hu => ended_ne_none _ u (hcall.symm.trans hu)
  rw [owasmOf, hp]
  rcases hrun : p.run (answer env) (100, []) with ⟨_ | _, u⟩ | ⟨e, u⟩
  · rw [hrun] at hmore
    exact ⟨fuel + 1, u.1, doRun_of_error hstart hentry hmore⟩
  · rw [hrun] at hmore
    exact ⟨fuel + 1, u.1, doRun_of_ok hstart hentry hmore⟩
  · rw [hrun] at hmore
    exact ⟨fuel + 1, u.1, doRun_of_error hstart hentry hmore⟩

/-! ## Results -/

open Exec
open Oracle

/-- A request that is prepared has run its script. -/
lemma exists_env_of_prepareRequest {k : Keeper} {spec : RequestSpec} {ibcInfo : Option IBCInfo}
    {w w' : World} {o : OracleScript} {code : Bytes} {u : Unit}
    (ho : w.store.oracleScripts[spec.oracleScriptID]? = some o)
    (hcode : w.files.files[o.filename]? = some code)
    (h : (prepareRequest k spec ibcInfo).run w = .ok u w') :
    ∃ env : ExecEnv, env.getCalldata = spec.calldata ∧ (k.owasm.run code true env).2 = 0 := by
  simp only [prepareRequest, run_get_bind, failIf_bind_eq_ok] at h
  obtain ⟨_, h⟩ := h
  obtain ⟨vals, w₁, hvals, h⟩ := bind_eq_ok.mp h
  rw [(getRandomValidators_eq_ok hvals).1] at h
  simp only [readStore_bind_eq_ok, getFile_bind_eq_ok, failIf_bind_eq_ok] at h
  obtain ⟨o', ho', code', hcode', hzero, -⟩ := h
  obtain rfl := Option.some.inj (ho.symm.trans (Store.getOracleScript_eq_ok.mp ho'))
  obtain rfl := Option.some.inj (hcode.symm.trans hcode')
  exact ⟨_, rfl, not_not.mp hzero⟩

/-- The Go decoder reads what the script has encoded. -/
lemma decode_encode_output {Output : Ty} (output : Output.Val)
    (hshort : (Output.goValue output).Short)
    (hlen : (Obi.Rust.encode Output output).length < 2 ^ 32) :
    Obi.decode Output.toGo (Obi.Rust.encode Output output) = .ok (Output.goValue output) := by
  rw [Obi.decode_eq_ok, Obi.reads_decodeImpl Output.toGo _ hlen]
  exact ⟨⟨Obi.Rust.has_goValue Output output, hshort⟩,
    by rw [Obi.Rust.encoding_goValue, List.append_nil]⟩

/-- **Scripts.**  Take a script whose entry points are made by the macros.  A request for it is
accepted only with calldata that decodes as its input.  A request that is resolved either fails,
with no result, or its result is the encoding of what the script computes from the calldata and the
reports, and the Go decoder reads that output from it. -/
theorem results_of_script (k : Keeper) (instantiate : Bytes → Option Instance)
    (hvm : Describes k.owasm instantiate) (w : World) (oid : OracleScriptID) (o : OracleScript)
    (code : Bytes) (ho : w.store.oracleScripts[oid]? = some o)
    (hcode : w.files.files[o.filename]? = some code) (inst : Instance)
    (hinst : instantiate code = some inst) (Input Output : Ty)
    (prepareImpl : Input.Val → Script Unit) (executeImpl : Input.Val → Script Output.Val)
    (hscript : FromMacros inst Input Output prepareImpl executeImpl) :
    (∀ spec ibcInfo w', spec.oracleScriptID = oid →
      (prepareRequest k spec ibcInfo).run w = .ok () w' →
      ∃ input, tryFromSlice Input spec.calldata = .ok input) ∧
    ∀ id r w', w.store.requests[id]? = some r → r.oracleScriptID = oid →
      (resolveRequest k id).run w = .ok () w' →
      ∃ env s cs, (newExecEnv r w.header.time 0).setReports (w.store.getReports id) = .ok env ∧
        w'.trace = w.trace ++ cs ∧ .saveResult s ∈ cs ∧ w'.store.results[id]? = some s.hash ∧
        (s.status = .failure ∧ s.result = [] ∨
          s.status = .success ∧ ∃ input output u, tryFromSlice Input r.calldata = .ok input ∧
            (executeImpl input).run (answer env) (100, []) = .ok (some output) u ∧
            tryToVec Output output = .ok s.result ∧
            ((Output.goValue output).Short → s.result.length < 2 ^ 32 →
              Obi.decode Output.toGo s.result = .ok (Output.goValue output))) := by
  refine ⟨fun spec ibcInfo w' hoid hrun => ?_, fun id r w' hr hoid hrun => ?_⟩
  · obtain ⟨env, hcalldata, hzero⟩ := exists_env_of_prepareRequest (hoid ▸ ho) hcode hrun
    rw [← hcalldata]
    exact exists_input_of_prepare hvm hinst hscript hzero
  · obtain ⟨env, henv⟩ := setReports_resolve r w.header.time (w.store.getReports id)
    have hcalldata : env.getCalldata = r.calldata := by
      rw [← Except.ok.inj henv]
      rfl
    obtain ⟨w₁, s, cs, hsave, hs, -, hstore, -, htrace⟩ := saveAndRespond_run k
      (w := w.log [.execute id (k.owasm.run code false env).2
        (k.owasm.run code false env).1.retdata]) hr
      (outcome (k.owasm.run code false env).2 (k.owasm.run code false env).1.retdata).1
      (outcome (k.owasm.run code false env).2 (k.owasm.run code false env).1.retdata).2
    rw [resolveRequest_eq k hr (hoid ▸ ho) hcode henv, hsave] at hrun
    obtain rfl : w₁ = w' := (EStateM.Result.ok.inj hrun).2
    refine ⟨env, s, _, henv, htrace.trans (List.append_assoc _ _ _), ?_, ?_, ?_⟩
    · simp
    · rw [hstore]
      exact Table.getElem?_insert_self _ _ _
    · have hstatus : s.status = (outcome (k.owasm.run code false env).2
          (k.owasm.run code false env).1.retdata).1 := by rw [hs]; rfl
      have hresult : s.result = (outcome (k.owasm.run code false env).2
          (k.owasm.run code false env).1.retdata).2 := by rw [hs]; rfl
      rw [hstatus, hresult, outcome]
      split_ifs with hcode'
      · exact .inl ⟨rfl, rfl⟩
      · obtain ⟨input, output, u, hinput, himpl, hret⟩ :=
          retdata_of_execute hvm hinst hscript (not_not.mp hcode')
        rw [hcalldata] at hinput
        refine .inr ⟨rfl, input, output, u, hinput, himpl, by rw [hret]; rfl, ?_⟩
        rw [hret]
        exact decode_encode_output output

/-- A script whose input and output is a byte, and which returns what it is given. -/
def echo : Script Unit × Script Unit :=
  (prepareEntryPoint .u8 fun _ => .pure (some ()),
    executeEntryPoint .u8 .u8 fun v => .pure (some v))

def echoKeeper : Keeper := { Sample.keeper with owasm := owasmOf echo.1 echo.2 }

lemma fromMacros_echo : FromMacros (compile echo.1 echo.2) .u8 .u8 (fun _ => .pure (some ()))
    fun v => .pure (some v) where
  prepare := ⟨_, rfl, fun _ => implements_compile (noGas_prepareEntryPoint fun _ => trivial)⟩
  execute := ⟨_, rfl, fun _ => implements_compile (noGas_executeEntryPoint fun _ => trivial)⟩

/-- A world with a request for the echo of a byte. -/
def echoWorld : World := { Sample.genesis with
  store := { Sample.genesis.store with
    oracleScripts := (∅ : Table OracleScriptID OracleScript).insert 1
      ⟨[], [], [], getFilename [], [], []⟩
    requests := (∅ : Table RequestID Request).insert 1 ⟨1, [7], [], 0, 0, 0, [], none, []⟩ }
  files := FileCache.empty.addFile [] }

theorem results_of_script_echo : ∃ w s, (resolveRequest echoKeeper 1).run echoWorld = .ok () w ∧
    .saveResult s ∈ w.trace ∧ (s.status = .failure ∧ s.result = [] ∨
      s.status = .success ∧ ∃ output, tryToVec .u8 output = .ok s.result) := by
  obtain ⟨code, hcode⟩ := FileCache.has_addFile .empty []
  have ho : echoWorld.store.oracleScripts[(1 : ℤ)]? = some ⟨[], [], [], getFilename [], [], []⟩ :=
    Table.getElem?_insert_self _ _ _
  have hr : echoWorld.store.requests[(1 : ℤ)]? = some ⟨1, [7], [], 0, 0, 0, [], none, []⟩ :=
    Table.getElem?_insert_self _ _ _
  obtain ⟨w, exitCode, retdata, s₀, cs₀, hrun, -⟩ := resolveRequest_run echoKeeper hr ho hcode
  obtain ⟨env, s, cs, -, htrace, hs, -, hresult⟩ := (results_of_script echoKeeper _
    (describes_owasmOf echo.1 echo.2) echoWorld 1 _ code ho hcode _ rfl .u8 .u8 _ _
    fromMacros_echo).2 1 _ w hr rfl hrun
  refine ⟨w, s, hrun, by rw [htrace]; exact List.mem_append_right _ hs, hresult.imp_right ?_⟩
  rintro ⟨hstatus, input, output, u, -, -, hvec, -⟩
  exact ⟨hstatus, output, hvec⟩

end Bandchain.Owasm
