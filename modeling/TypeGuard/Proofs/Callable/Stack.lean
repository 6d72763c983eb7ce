import TypeGuard.Proofs.Callable.Reported
import TypeGuard.Proofs.Callable.Steps

/-! # Guards

What a guard does when it is called by value, in any world after the one in which it was made. A
signature put around a function, or around a guard, adds one layer to the calls of it.
-/

namespace TypeGuard

open Run Layer

theorem Value.execute_call (v : Value) (args : Arguments) (w : World) :
    (v.call args).execute w = (w.caller v args).execute w :=
  execute_bind_ok (execute_world w)

/-! ## Wrapping -/

namespace Signature

variable {s : Signature Value} {f g : Value} {w w' : World}

/-- The types of a signature, with the references that there are when it is applied. -/
def layer (s : Signature Value) (w : World) : Layer Run :=
  ⟨s.params.map (Predicate.gate w.caller), s.result.gate w.caller⟩

theorem length_params_layer (s : Signature Value) (w : World) :
    (s.layer w).params.length = s.arity :=
  List.length_map _

def guard (s : Signature Value) (f : Value) (w : World) : Guard :=
  ⟨f, w.shownName f, w.declaredName f, s.params, s.result, []⟩

theorem wrap_eq_ok (h : (s.wrap f).execute w = (.ok g, w')) :
    w.arity f = some s.arity ∧ g = .agent .guard w.agents.length ∧
      w' = { w with agents := Agent.guard (s.guard f w) :: w.agents } := by
  rw [wrap, execute_bind_ok (execute_world w)] at h
  split at h
  · simp at h
  · next received hreceived =>
    split at h
    · simp at h
    · next harity =>
      obtain rfl : received = s.arity := not_not.mp harity
      cases h
      exact ⟨hreceived, rfl, rfl⟩

theorem parameters_of_wrap (h : (s.wrap f).execute w = (.ok g, w')) :
    w'.parameters g = w.parameters f := by
  obtain ⟨harity, rfl, rfl⟩ := wrap_eq_ok h
  obtain ⟨ps, hps, -⟩ := Option.map_eq_some_iff.mp harity
  rw [World.parameters, World.parameters, if_pos (World.canCall_of_parameters hps), if_pos]
  · exact if_pos rfl
  · simp [World.canCall, World.calledBy, Value.isCallable]

theorem arity_of_wrap (h : (s.wrap f).execute w = (.ok g, w')) : w'.arity g = w.arity f :=
  congrArg (Option.map Parameter.arity) (parameters_of_wrap h)

theorem caller_of_wrap (h : (s.wrap f).execute w = (.ok g, w')) (args : List Value) :
    w'.caller g (.ofList args) =
      guardedCall (s.layer w).params (s.layer w).result (fun vs => w.caller f (.ofList vs))
        args := by
  obtain ⟨-, rfl, rfl⟩ := wrap_eq_ok h
  exact if_pos rfl

end Signature

/-- A function that was put under guards in some world and later ones: the layers, the outermost
first, and the outermost guard, in a world that may have changed since. -/
inductive Stacked (f : Value) (w₀ : World) : List (Layer Run) → Value → World → Prop
  | first {s : Signature Value} {g w} : (s.wrap f).execute w₀ = (.ok g, w) →
      Stacked f w₀ [s.layer w₀] g w
  | next {ls v w} {s : Signature Value} {g w'} : Stacked f w₀ ls v w →
      (s.wrap v).execute w = (.ok g, w') → Stacked f w₀ (s.layer w :: ls) g w'
  | later {ls g w w'} : Stacked f w₀ ls g w → w.GrowsTo w' → Stacked f w₀ ls g w'

namespace Stacked

variable {f g : Value} {w₀ w : World} {ls : List (Layer Run)}

theorem exists_arity (h : Stacked f w₀ ls g w) :
    ∃ n, w₀.arity f = some n ∧ w.arity g = some n ∧ ∀ l ∈ ls, l.params.length = n := by
  induction h with
  | @first s g w h =>
    have hf := (Signature.wrap_eq_ok h).1
    refine ⟨s.arity, hf, (Signature.arity_of_wrap h).trans hf, ?_⟩
    intro l hl
    rw [List.mem_singleton.mp hl, Signature.length_params_layer]
  | @next ls v w s g w' _ h ih =>
    obtain ⟨n, hf, hv, hls⟩ := ih
    refine ⟨n, hf, (Signature.arity_of_wrap h).trans hv, List.forall_mem_cons.mpr ⟨?_, hls⟩⟩
    rw [Signature.length_params_layer]
    exact Option.some.inj ((Signature.wrap_eq_ok h).1.symm.trans hv)
  | later _ h ih =>
    obtain ⟨n, hf, hg, hls⟩ := ih
    exact ⟨n, hf, h.arity_eq hg, hls⟩

/-- A call of the outermost guard is a call of the function under all layers. -/
theorem caller_eq (h : Stacked f w₀ ls g w) (args : List Value) :
    w.caller g (.ofList args) = stackedCall (fun vs => w₀.caller f (.ofList vs)) ls args := by
  induction h generalizing args with
  | first h => exact Signature.caller_of_wrap h args
  | next _ h ih =>
    rw [Signature.caller_of_wrap h, funext ih]
    rfl
  | later hstacked h ih =>
    obtain ⟨n, -, hg, -⟩ := hstacked.exists_arity
    rw [h.caller_eq (World.canCall_of_arity hg), ih]

theorem ne_nil (h : Stacked f w₀ ls g w) : ls ≠ [] := by
  induction h with
  | first h | next _ h => exact List.cons_ne_nil _ _
  | later _ _ ih => exact ih

theorem exists_called (h : Stacked f w₀ ls g w) {n : Nat} (hn : w₀.arity f = some n)
    (args : List Value) :
    ∃ steps, Called n ls (fun vs => w₀.caller f (.ofList vs)) args w steps
      ((g.call (.ofList args)).execute w).1 ((g.call (.ofList args)).execute w).2 := by
  obtain ⟨m, hm, -, hls⟩ := h.exists_arity
  obtain rfl : n = m := Option.some.inj (hn.symm.trans hm)
  obtain ⟨l, ls', rfl⟩ := List.exists_cons_of_ne_nil h.ne_nil
  rw [Value.execute_call, h.caller_eq]
  exact TypeGuard.exists_called hls _ args w

end Stacked

/-! ## Calls one after the other -/

/-- One of several calls: its arguments, the world before it, its outcome, and the world after it.
-/
structure Visit where
  args : List Value
  before : World
  outcome : Except Error Value
  after : World

/-- Calls one after the other; an error ends its own call only. -/
def visits (call : List Value → Run Value) : World → List (List Value) → List Visit
  | _, [] => []
  | w, args :: rest =>
    let ending := (call args).execute w
    ⟨args, w, ending.1, ending.2⟩ :: visits call ending.2 rest

def Value.visits (g : Value) : World → List (List Value) → List Visit :=
  TypeGuard.visits fun args => g.call (.ofList args)

/-- If each call in one of some worlds goes by the protocol and ends in one of them, all of several
calls do. -/
theorem exists_runs {n : ℕ} {ls : List (Layer Run)} {f call : List Value → Run Value}
    {P : World → Prop}
    (hcalled : ∀ w args, P w →
      ∃ steps, Called n ls f args w steps ((call args).execute w).1 ((call args).execute w).2)
    (hkeeps : ∀ w args, P w → P ((call args).execute w).2) {w : World} (hw : P w)
    (argss : List (List Value)) :
    ∃ runs : List (List Step),
      List.Forall₂ (fun v steps => Called n ls f v.args v.before steps v.outcome v.after)
        (visits call w argss) runs := by
  induction argss generalizing w with
  | nil => exact ⟨[], .nil⟩
  | cons args argss ih =>
    obtain ⟨steps, hsteps⟩ := hcalled w args hw
    obtain ⟨runs, hruns⟩ := ih (hkeeps w args hw)
    exact ⟨steps :: runs, .cons hsteps hruns⟩

theorem invocations_of_runs {n : Nat} {ls : List (Layer Run)} {f : List Value → Run Value}
    {visits : List Visit} {runs : List (List Step)}
    (h : List.Forall₂ (fun v steps => Called n ls f v.args v.before steps v.outcome v.after)
      visits runs) :
    runs.flatten.countP Step.isInvocation =
      visits.countP fun v => admits n ls v.args v.before := by
  induction h with
  | nil => rfl
  | cons h _ ih =>
    rw [List.flatten_cons, List.countP_append, List.countP_cons, h.invocations, ih, Nat.add_comm]
    cases admits n ls _ _ <;> rfl

/-- Wrapping a function calls nothing: it adds a guard to the world. From then on, in any sequence
of calls, the guard goes by the protocol in each of them, and the function runs once for each call
whose arguments pass. The protocol is the same whatever runs in the place of the function and of the
tests of the types: these may change the world in any way, and call the guard again. -/
theorem Signature.visits_of_wrap {s : Signature Value} {f g : Value} {w₀ w₁ : World}
    (h : (s.wrap f).execute w₀ = (.ok g, w₁)) :
    w₁ = { w₀ with agents := Agent.guard (s.guard f w₀) :: w₀.agents } ∧
      (∀ w args, w₀.GrowsTo w → (f.call args).execute w = (w₀.caller f args).execute w) ∧
      (∀ w, w₁.GrowsTo w → ∀ argss : List (List Value), ∃ runs : List (List Step),
        List.Forall₂ (fun v steps => Called s.arity [s.layer w₀]
          (fun vs => w₀.caller f (.ofList vs)) v.args v.before steps v.outcome v.after)
          (g.visits w argss) runs ∧
        runs.flatten.countP Step.isInvocation =
          (g.visits w argss).countP fun v => admits s.arity [s.layer w₀] v.args v.before) ∧
      ∀ (l : Layer Run) (body : List Value → Run Value), l.params.length = s.arity →
        ∀ w (argss : List (List Value)), ∃ runs : List (List Step),
          List.Forall₂ (fun v steps =>
            Called s.arity [l] body v.args v.before steps v.outcome v.after)
            (visits (guardedCall l.params l.result body) w argss) runs ∧
          runs.flatten.countP Step.isInvocation =
            (visits (guardedCall l.params l.result body) w argss).countP fun v =>
              admits s.arity [l] v.args v.before := by
  obtain ⟨harity, -, hworld⟩ := wrap_eq_ok h
  refine ⟨hworld, ?_, ?_, ?_⟩
  · intro w args hw
    rw [Value.execute_call, hw.caller_eq (World.canCall_of_arity harity)]
  · intro w hw argss
    obtain ⟨runs, hruns⟩ := exists_runs (P := Stacked f w₀ [s.layer w₀] g)
      (fun w args hstacked => hstacked.exists_called harity args)
      (fun w args hstacked => hstacked.later (g.grows_call (.ofList args) w))
      ((Stacked.first h).later hw) argss
    exact ⟨runs, hruns, invocations_of_runs hruns⟩
  · intro l body hl w argss
    obtain ⟨runs, hruns⟩ := exists_runs (P := fun _ => True)
      (fun w args _ => exists_called (List.forall_mem_singleton.mpr hl) body args w)
      (fun _ _ _ => trivial) trivial argss
    exact ⟨runs, hruns, invocations_of_runs hruns⟩

/-- Of three calls, one whose argument the logged test `isText` accepts, one whose argument it
rejects, and one without an argument, only the first runs the function. -/
theorem Signature.visits_of_wrap_logging :
    let isText : Agent := .function ⟨"isText", [⟨"p0", .positional, false⟩], .isString, []⟩
    let pack : Agent := .function ⟨"pack", [⟨"p0", .positional, false⟩], .list, []⟩
    let w₀ : World := { World.empty with agents := [pack, isText] }
    let s : Signature Value :=
      ⟨.foreign "object", [⟨.foreign "object", .callback (.agent .function 0), .text "isText"⟩],
        ⟨.foreign "object", .array .any, .text "Array<any>"⟩, ""⟩
    let f : Value := .agent .function 1
    let w₁ : World := { w₀ with agents := Agent.guard (s.guard f w₀) :: w₀.agents }
    let g : Value := .agent .guard 2
    (s.wrap f).execute w₀ = (.ok g, w₁) ∧
      ∃ runs : List (List Step),
        List.Forall₂ (fun v steps => Called 1 [s.layer w₀]
          (fun vs => w₀.caller f (.ofList vs)) v.args v.before steps v.outcome v.after)
          (g.visits w₁ [[.str "x"], [.int 1], []]) runs ∧
        runs.flatten.countP Step.isInvocation = 1 := by
  intro isText pack w₀ s f w₁ g
  have h : (s.wrap f).execute w₀ = (.ok g, w₁) := rfl
  obtain ⟨runs, hruns, hcount⟩ := (visits_of_wrap h).2.2.1 w₁ (.refl w₁) [[.str "x"], [.int 1], []]
  refine ⟨h, runs, hruns, hcount.trans ?_⟩
  rfl

/-- In a call of the outermost of several guards, the arguments are counted by the outermost guard
and tested by all from the outside in; the function runs once if they pass, and not at all
otherwise; its result is tested from the inside out and is the result of the call. The same goes for
any layers of equally many parameters around anything that runs in the place of the function. -/
theorem Stacked.called {f g : Value} {w₀ w : World} {ls : List (Layer Run)}
    (h : Stacked f w₀ ls g w) :
    (∀ w' args, w₀.GrowsTo w' → (f.call args).execute w' = (w₀.caller f args).execute w') ∧
      (∃ n, (∀ l ∈ ls, l.params.length = n) ∧ ∀ (args : List Value) (outcome : Except Error Value)
        (after : World), (g.call (.ofList args)).execute w = (outcome, after) →
        ∃ steps, Called n ls (fun vs => w₀.caller f (.ofList vs)) args w steps outcome after ∧
          steps.countP Step.isInvocation = (admits n ls args w).toNat ∧
          (∀ i j, outcome = .error (.validation (.argumentCount i j)) →
            args.length ≠ n ∧ i = n ∧ j = args.length ∧ steps = [] ∨
              RaisedWithin ls (fun vs => w₀.caller f (.ofList vs)) args
                (.validation (.argumentCount i j))) ∧
          ∀ v, outcome = .ok v →
            ∃ w₁ w₂, (w₀.caller f (.ofList args)).execute w₁ = (.ok v, w₂)) ∧
      ∀ (n : ℕ) (l : Layer Run) (inner : List (Layer Run)) (body : List Value → Run Value),
        (∀ l' ∈ l :: inner, l'.params.length = n) →
        ∀ (args : List Value) (w : World) (outcome : Except Error Value) (after : World),
          (stackedCall body (l :: inner) args).execute w = (outcome, after) →
          ∃ steps, Called n (l :: inner) body args w steps outcome after ∧
            steps.countP Step.isInvocation = (admits n (l :: inner) args w).toNat ∧
            (∀ i j, outcome = .error (.validation (.argumentCount i j)) →
              args.length ≠ n ∧ i = n ∧ j = args.length ∧ steps = [] ∨
                RaisedWithin (l :: inner) body args (.validation (.argumentCount i j))) ∧
            ∀ v, outcome = .ok v → ∃ w₁ w₂, (body args).execute w₁ = (.ok v, w₂) := by
  obtain ⟨n, hf, -, hls⟩ := h.exists_arity
  refine ⟨?_, ⟨n, hls, ?_⟩, ?_⟩
  · intro w' args hw
    rw [Value.execute_call, hw.caller_eq (World.canCall_of_arity hf)]
  · intro args outcome after hcall
    obtain ⟨steps, hsteps⟩ := h.exists_called hf args
    rw [hcall] at hsteps
    refine ⟨steps, hsteps, hsteps.invocations, ?_, ?_⟩
    · intro i j hr
      exact hsteps.argumentCount hr
    · intro v hr
      exact hsteps.result hr
  · intro n l inner body hlayers args w outcome after hcall
    obtain ⟨steps, hsteps⟩ := TypeGuard.exists_called hlayers body args w
    rw [hcall] at hsteps
    refine ⟨steps, hsteps, hsteps.invocations, ?_, ?_⟩
    · intro i j hr
      exact hsteps.argumentCount hr
    · intro v hr
      exact hsteps.result hr

/-- A function under two signatures: the outer one asks for a text and gets a list, the inner one
asks for anything and promises a list. -/
theorem Stacked.called_of_two :
    let pack : Agent := .function ⟨"pack", [⟨"p0", .positional, false⟩], .list, []⟩
    let w₀ : World := { World.empty with agents := [pack] }
    let f : Value := .agent .function 0
    let list : Predicate Value := ⟨.foreign "object", .array .any, .text "Array<any>"⟩
    let inner : Signature Value := ⟨.foreign "object", [⟨.any, .any, .text "any"⟩], list, ""⟩
    let outer : Signature Value := ⟨.foreign "object", [⟨.foreign "object", .string, .text "string"⟩], list, ""⟩
    let w₁ : World := { w₀ with agents := Agent.guard (inner.guard f w₀) :: w₀.agents }
    let g₁ : Value := .agent .guard 1
    let w₂ : World := { w₁ with agents := Agent.guard (outer.guard g₁ w₁) :: w₁.agents }
    let g₂ : Value := .agent .guard 2
    let ls := [outer.layer w₁, inner.layer w₀]
    Stacked f w₀ ls g₂ w₂ ∧
      ∃ steps, Called 1 ls (fun vs => w₀.caller f (.ofList vs)) [.str "x"] w₂ steps
        ((g₂.call (.ofList [.str "x"])).execute w₂).1
        ((g₂.call (.ofList [.str "x"])).execute w₂).2 ∧
        steps.countP Step.isInvocation = 1 := by
  intro pack w₀ f list inner outer w₁ g₁ w₂ g₂ ls
  have hinner : (inner.wrap f).execute w₀ = (.ok g₁, w₁) := rfl
  have houter : (outer.wrap g₁).execute w₁ = (.ok g₂, w₂) := rfl
  have h : Stacked f w₀ ls g₂ w₂ := .next (.first hinner) houter
  obtain ⟨-, ⟨n, hls, hcall⟩, -⟩ := Stacked.called h
  obtain rfl : 1 = n := hls _ List.mem_cons_self
  obtain ⟨steps, hsteps, hcount, -⟩ := hcall [.str "x"] _ _ rfl
  exact ⟨h, steps, hsteps, hcount⟩

end TypeGuard
