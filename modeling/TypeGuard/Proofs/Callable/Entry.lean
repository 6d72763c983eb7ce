import TypeGuard.Proofs.Callable.Stack

/-! # Entering a call

A call passes its arguments on from one callable to the next, through applications, guards and
instances, until they are bound to parameters. `entry` is that part of a call by itself: what runs
once the arguments are bound, or nothing if they do not fit. Where there is an entry the call is the
run of it, and where there is none the call fails. The parameters that are bound in the end are
`boundParameters`, whatever is reported.
-/

namespace TypeGuard

open Run

/-! ## Computations that fail -/

namespace Run

variable {α β : Type} {x : Run α} {f : α → Run β}

def Fails (x : Run α) : Prop :=
  ∀ w : World, ∃ e, (x.execute w).1 = .error e

theorem Fails.throw (e : Error) : Fails (MonadExcept.throw e : Run α) :=
  fun _ => ⟨e, rfl⟩

theorem Fails.bind (h : ∀ a, Fails (f a)) : Fails (x >>= f) := by
  intro w
  rcases hx : x.execute w with ⟨e | a, w'⟩
  · rw [execute_bind_error hx]
    exact ⟨e, rfl⟩
  · rw [execute_bind_ok hx]
    exact h a w'

theorem Fails.bind_left (h : Fails x) : Fails (x >>= f) := by
  intro w
  obtain ⟨e, he⟩ := h w
  have hx : x.execute w = (.error e, (x.execute w).2) := Prod.ext he rfl
  rw [execute_bind_error hx]
  exact ⟨e, rfl⟩

theorem Fails.ite {p : Prop} [Decidable p] {x y : Run α} (hx : Fails x) (hy : Fails y) :
    Fails (if p then x else y) := by
  split <;> assumption

theorem Fails.guardedCall {ps : List (Gate Run)} {result : Gate Run} {f : List Value → Run Value}
    {args : List Value} (h : Fails (f args)) : Fails (guardedCall ps result f args) := by
  apply Fails.ite
  · exact .throw _
  · apply Fails.bind
    intro _
    exact h.bind_left

end Run

/-! ## Entries -/

namespace ClassInfo

def contentEntry (c : ClassInfo) (inherited : List (String × Value)) (args : Arguments) :
    Option (Run Value) :=
  match c.fields with
  | some names =>
    let params := names.map fun name => Parameter.mk name .positional false
    (Parameter.bind Value.none params args.positional args.keywords).map fun vs =>
      Run.ofState (c.create inherited (some (.tuple vs)) [])
  | none =>
    (World.builtinParameters c.base).bind fun params =>
      (Parameter.bind Option.none params (args.positional.map some)
        (args.keywords.map fun k => (k.1, some k.2))).map (c.build inherited)

def partEntry (agent : ℕ → Arguments → Option (Run Value)) (part : Option ℕ) (args : Arguments) :
    Option (Run Value) :=
  match part with
  | some id => agent id args
  | none => some (return .none)

/-- What a class runs once the arguments are bound at each of its parts that take them. -/
def entry (agent : ℕ → Arguments → Option (Run Value)) (c : ClassInfo)
    (inherited : List (String × Value)) (args : Arguments) : Option (Run Value) :=
  (partEntry agent c.makes args).bind fun first =>
    (if c.takesArguments then c.contentEntry inherited args
      else some (Run.ofState (c.create inherited none []))).bind fun made =>
    (partEntry agent c.initializes args).map fun last => do
      let _ ← first
      let v ← made
      let answer ← last
      if answer.isNull then return v else throw .misuse

end ClassInfo

def Agent.entry (call : Caller) (entry : Value → Arguments → Option (Run Value)) (id : ℕ)
    (args : Arguments) : Agent → Option (Run Value)
  | function f =>
    (Parameter.bind Value.none f.params args.positional args.keywords).map fun vs => do
      recordCall id f.name vs
      f.body.run id vs
  | application callee fixed keywords _ => entry callee (args.behind fixed keywords)
  | predicate p =>
    (args.single "value").map fun v => do return .bool (← p.check.test call v)
  | signature s _ => (args.single "func").map s.wrap
  | guard g =>
    match args.keywords with
    | [] =>
      (entry g.wrapped (.ofList args.positional)).map fun run =>
        guardedCall (g.params.map (Predicate.gate call)) (g.result.gate call) (fun _ => run)
          args.positional
    | _ => none

namespace World

def valueEntry (agent : ℕ → Arguments → Option (Run Value)) :
    Value → Arguments → Option (Run Value)
  | .agent _ id, args => agent id args
  | .type c attributes, args => c.entry agent attributes args
  | .inst _ c _ _, args => c.call.bind fun id => agent id args
  | _, _ => none

def agentEntry : List Agent → ℕ → Arguments → Option (Run Value)
  | [], _, _ => none
  | a :: older, id, args =>
    if id = older.length then
      a.entry (callValue (callAgent older)) (valueEntry (agentEntry older)) id args
    else agentEntry older id args

/-- What a call of a value runs once its arguments are bound at every callable that they are passed
on to, or nothing if they do not fit there. -/
def entry (w : World) (v : Value) (args : Arguments) : Option (Run Value) :=
  valueEntry (agentEntry w.agents) v args

/-! ### Bound parameters

What is left of the parameters in the end behind some given arguments. -/

/-- What a class leaves, given what its functions leave. Where several of its parts take the
arguments, they must leave the same. -/
def boundByClass (agent : ℕ → Option (List Parameter)) (c : ClassInfo) (given : Arguments) :
    Option (List Parameter) :=
  let content :=
    if c.takesArguments then
      [(contentParameters c).bind fun ps => Parameter.fix ps given.positional given.keywords]
    else []
  match c.makes.toList.map agent ++ content ++ c.initializes.toList.map agent with
  | [] => none
  | ps :: others => if others.all (· = ps) then ps else none

def boundByValue (agent : ℕ → Arguments → Option (List Parameter)) (v : Value)
    (given : Arguments) : Option (List Parameter) :=
  match v with
  | .agent _ id => agent id given
  | .type c _ => boundByClass (agent · given) c given
  | .inst _ c _ _ => c.call.bind (agent · given)
  | _ => none

def boundByAgent : List Agent → ℕ → Arguments → Option (List Parameter)
  | [], _, _ => none
  | a :: older, id, given =>
    if id = older.length then
      match a with
      | .function f => Parameter.fix f.params given.positional given.keywords
      | .application callee fixed keywords _ =>
        boundByValue (boundByAgent older) callee (given.behind fixed keywords)
      | .predicate _ =>
        Parameter.fix [⟨"value", .positional, false⟩] given.positional given.keywords
      | .signature _ _ =>
        Parameter.fix [⟨"func", .positional, false⟩] given.positional given.keywords
      | .guard g => boundByValue (boundByAgent older) g.wrapped given
    else boundByAgent older id given

/-- The parameters to which a call of a value binds its arguments. -/
def boundParameters (w : World) (v : Value) : Option (List Parameter) :=
  boundByValue (boundByAgent w.agents) v (.ofList [])

end World

open World

/-! ## Where there is an entry -/

namespace ClassInfo

variable {c : ClassInfo} {inherited : List (String × Value)} {args : Arguments} {run : Run Value}

theorem construct_of_contentEntry (h : c.contentEntry inherited args = some run) :
    c.construct inherited args = run := by
  rw [contentEntry] at h
  rw [construct]
  cases hfields : c.fields with
  | some names =>
    simp only [hfields] at h
    obtain ⟨vs, hvs, rfl⟩ := Option.map_eq_some_iff.mp h
    simp only [hvs]
  | none =>
    simp only [hfields] at h
    obtain ⟨params, hparams, h⟩ := Option.bind_eq_some_iff.mp h
    obtain ⟨vs, hvs, rfl⟩ := Option.map_eq_some_iff.mp h
    simp only [hparams, hvs]

theorem new_of_entry {agent : ℕ → Arguments → Run Value}
    {entry : ℕ → Arguments → Option (Run Value)}
    (h : ∀ id args run, entry id args = some run → agent id args = run)
    (hc : c.entry entry inherited args = some run) : c.new agent inherited args = run := by
  have hpart {part : Option ℕ} {run : Run Value} (hpart : partEntry entry part args = some run) :
      runPart agent part args = run := by
    cases part with
    | none => exact Option.some.inj hpart
    | some id => exact h id args run hpart
  obtain ⟨first, hfirst, hc⟩ := Option.bind_eq_some_iff.mp hc
  obtain ⟨made, hmade, hc⟩ := Option.bind_eq_some_iff.mp hc
  obtain ⟨last, hlast, rfl⟩ := Option.map_eq_some_iff.mp hc
  have hmake : c.make inherited args = made := by
    unfold make
    split at hmade
    · next htakes => rw [if_pos htakes, construct_of_contentEntry hmade]
    · next htakes => rw [if_neg htakes, Option.some.inj hmade]
  rw [ClassInfo.new, hpart hfirst, hmake, hpart hlast]

end ClassInfo

theorem Agent.call_of_entry {call : Caller} {entry : Value → Arguments → Option (Run Value)}
    (h : ∀ v args run, entry v args = some run → call v args = run) {id : ℕ} {args : Arguments}
    {a : Agent} {run : Run Value} (ha : a.entry call entry id args = some run) :
    a.call call id args = run := by
  cases a with
  | function f =>
    obtain ⟨vs, hvs, rfl⟩ := Option.map_eq_some_iff.mp ha
    simp only [Agent.call, Function.call, hvs]
  | application callee fixed keywords attributes => exact h _ _ _ ha
  | predicate p =>
    obtain ⟨v, hv, rfl⟩ := Option.map_eq_some_iff.mp ha
    simp only [Agent.call, hv]
  | signature s attributes =>
    obtain ⟨f, hf, rfl⟩ := Option.map_eq_some_iff.mp ha
    simp only [Agent.call, hf]
  | guard g =>
    obtain ⟨positional, keywords⟩ := args
    cases keywords with
    | nil =>
      obtain ⟨inner, hinner, rfl⟩ := Option.map_eq_some_iff.mp ha
      rw [← h _ _ _ hinner]
      rfl
    | cons k keywords => cases ha

theorem callValue_of_entry {agent : ℕ → Arguments → Run Value}
    {entry : ℕ → Arguments → Option (Run Value)}
    (h : ∀ id args run, entry id args = some run → agent id args = run) {v : Value}
    {args : Arguments} {run : Run Value} (hv : valueEntry entry v args = some run) :
    callValue agent v args = run := by
  cases v with
  | agent kind id => exact h id args run hv
  | type c attributes => exact ClassInfo.new_of_entry h hv
  | inst id c content attributes =>
    obtain ⟨id', hcall, hrun⟩ := Option.bind_eq_some_iff.mp hv
    simp only [callValue, hcall]
    exact h id' args run hrun
  | _ => cases hv

theorem callAgent_of_entry {agents : List Agent} {id : ℕ} {args : Arguments} {run : Run Value}
    (h : agentEntry agents id args = some run) : callAgent agents id args = run := by
  induction agents generalizing id args run with
  | nil => cases h
  | cons a older ih =>
    rw [agentEntry] at h
    rw [callAgent]
    split at h
    · next hid =>
      rw [if_pos hid]
      exact Agent.call_of_entry (fun v args run => callValue_of_entry fun id args run => ih) h
    · next hid =>
      rw [if_neg hid]
      exact ih h

/-- A call of a value whose arguments fit is the run of its entry. -/
theorem World.caller_of_entry {w : World} {v : Value} {args : Arguments} {run : Run Value}
    (h : w.entry v args = some run) : w.caller v args = run :=
  callValue_of_entry (fun _ _ _ => callAgent_of_entry) h

/-! ## Where there is none -/

namespace ClassInfo

variable {c : ClassInfo} {inherited : List (String × Value)} {args : Arguments}
  {ps : List Parameter}

theorem fails_of_contentEntry (hps : contentParameters c = some ps)
    (h : c.contentEntry inherited args = none) : Fails (c.construct inherited args) := by
  rw [contentEntry] at h
  rw [construct]
  rw [contentParameters] at hps
  cases hfields : c.fields with
  | some names =>
    simp only [hfields, Option.map_eq_none_iff] at h
    simp only [h]
    exact .throw _
  | none =>
    simp only [hfields] at h hps
    simp only [hps, Option.bind_some, Option.map_eq_none_iff] at h
    simp only [hps, h]
    exact .throw _

theorem bound_parts {agent : ℕ → Option (List Parameter)} {given : Arguments}
    (h : boundByClass agent c given = some ps) :
    (∀ id ∈ c.functions, agent id = some ps) ∧
      (c.takesArguments = true → ((contentParameters c).bind fun whole =>
        Parameter.fix whole given.positional given.keywords) = some ps) := by
  have hall : ∀ o ∈ c.makes.toList.map agent ++
      (if c.takesArguments then
        [(contentParameters c).bind fun whole =>
          Parameter.fix whole given.positional given.keywords] else []) ++
      c.initializes.toList.map agent, o = some ps := by
    rw [boundByClass] at h
    split at h
    · cases h
    · next o others hparts =>
      split at h
      · next hothers =>
        subst h
        rw [hparts]
        refine List.forall_mem_cons.mpr ⟨rfl, fun o ho => ?_⟩
        exact of_decide_eq_true (List.all_eq_true.mp hothers o ho)
      · cases h
  refine ⟨fun id hid => hall _ ?_, fun htakes => hall _ ?_⟩
  · rcases List.mem_append.mp hid with hid | hid
    · exact List.mem_append_left _ (List.mem_append_left _ (List.mem_map_of_mem hid))
    · exact List.mem_append_right _ (List.mem_map_of_mem hid)
  · simp [htakes]

theorem fails_make (hcontent : c.takesArguments = true → ∃ whole, contentParameters c = some whole)
    (h : (if c.takesArguments then c.contentEntry inherited args
      else some (Run.ofState (c.create inherited none []))) = none) :
    Fails (c.make inherited args) := by
  unfold make
  split at h
  · next htakes =>
    obtain ⟨whole, hwhole⟩ := hcontent htakes
    rw [if_pos htakes]
    exact fails_of_contentEntry hwhole h
  · cases h

theorem fails_of_entry {agent : ℕ → Arguments → Run Value}
    {entry : ℕ → Arguments → Option (Run Value)} {bound : ℕ → Option (List Parameter)}
    {given : Arguments}
    (h : ∀ id args ps, bound id = some ps → entry id args = none → Fails (agent id args))
    (hps : boundByClass bound c given = some ps) (hc : c.entry entry inherited args = none) :
    Fails (c.new agent inherited args) := by
  obtain ⟨hfunctions, hcontent⟩ := bound_parts hps
  have hpart {part : Option ℕ} (hsub : part.toList ⊆ c.functions)
      (hpart : partEntry entry part args = none) : Fails (runPart agent part args) := by
    cases part with
    | none => cases hpart
    | some id => exact h id args ps (hfunctions id (hsub (List.mem_singleton_self id))) hpart
  have hparameters : c.takesArguments = true → ∃ whole, contentParameters c = some whole := by
    intro htakes
    obtain ⟨whole, hwhole, -⟩ := Option.bind_eq_some_iff.mp (hcontent htakes)
    exact ⟨whole, hwhole⟩
  rw [ClassInfo.new]
  rw [ClassInfo.entry, Option.bind_eq_none_iff] at hc
  cases hfirst : partEntry entry c.makes args with
  | none => exact (hpart (List.subset_append_left _ _) hfirst).bind_left
  | some first =>
    refine .bind fun _ => ?_
    have hc := Option.bind_eq_none_iff.mp (hc first hfirst)
    rcases Option.eq_none_or_eq_some
      (if c.takesArguments then c.contentEntry inherited args
        else some (Run.ofState (c.create inherited none []))) with hnone | ⟨made, hsome⟩
    · exact (fails_make hparameters hnone).bind_left
    · exact .bind fun _ =>
        (hpart (List.subset_append_right _ _) (Option.map_eq_none_iff.mp (hc made hsome))).bind_left

/-! ### All parts of a class -/

theorem isSome_bind_bind_map {α β γ δ : Type} (x : Option α) (y : Option β) (z : Option γ)
    (f : α → β → γ → δ) :
    (x.bind fun a => y.bind fun b => z.map (f a b)).isSome = (x.isSome && y.isSome && z.isSome) := by
  cases x <;> cases y <;> simp

theorem isSome_partEntry_iff {entry : ℕ → Arguments → Option (Run Value)} {part : Option ℕ} :
    (partEntry entry part args).isSome = true ↔ ∀ id ∈ part.toList, (entry id args).isSome = true := by
  cases part <;> simp [partEntry]

theorem isSome_entry_iff {entry : ℕ → Arguments → Option (Run Value)} :
    (c.entry entry inherited args).isSome = true ↔
      (∀ id ∈ c.functions, (entry id args).isSome = true) ∧
        (c.takesArguments = true → (c.contentEntry inherited args).isSome = true) := by
  have hmade : (if c.takesArguments then c.contentEntry inherited args
      else some (Run.ofState (c.create inherited none []))).isSome = true ↔
        (c.takesArguments = true → (c.contentEntry inherited args).isSome = true) := by
    split <;> simp [*]
  rw [ClassInfo.entry, isSome_bind_bind_map, Bool.and_eq_true, Bool.and_eq_true,
    isSome_partEntry_iff, hmade, isSome_partEntry_iff, functions, List.forall_mem_append,
    and_right_comm]

theorem takesArguments_of_functions (h : c.functions = []) : c.takesArguments = true := by
  obtain ⟨hmakes, hinitializes⟩ := List.append_eq_nil_iff.mp h
  rw [Option.toList_eq_nil_iff] at hmakes hinitializes
  rw [takesArguments, hmakes, hinitializes]
  cases c.base <;> rfl

end ClassInfo

section Values

variable {agents : List Agent} {given : Arguments}
  (h : ∀ id args given ps, boundByAgent agents id given = some ps →
    agentEntry agents id args = none → Fails (callAgent agents id args))

include h

theorem fails_of_valueEntry {v : Value} {args : Arguments} {ps : List Parameter}
    (hps : boundByValue (boundByAgent agents) v given = some ps)
    (hv : valueEntry (agentEntry agents) v args = none) :
    Fails (callValue (callAgent agents) v args) := by
  cases v with
  | agent kind id => exact h id args given ps hps hv
  | type c attributes =>
    exact ClassInfo.fails_of_entry (fun id args ps => h id args given ps) hps hv
  | inst id c content attributes =>
    obtain ⟨id', hcall, hps⟩ := Option.bind_eq_some_iff.mp hps
    rw [valueEntry, hcall, Option.bind_some] at hv
    simp only [callValue, hcall]
    exact h id' args given ps hps hv
  | _ => cases hps

theorem Agent.fails_of_entry {a : Agent} {id : ℕ} {args : Arguments} {ps : List Parameter}
    (hps : boundByAgent (a :: agents) agents.length given = some ps)
    (ha : a.entry (callValue (callAgent agents)) (valueEntry (agentEntry agents)) id args = none) :
    Fails (a.call (callValue (callAgent agents)) id args) := by
  cases a with
  | function f =>
    have hbind := Option.map_eq_none_iff.mp ha
    rw [Agent.call, Function.call, hbind]
    exact .throw _
  | application callee fixed keywords attributes =>
    have hcallee := (if_pos rfl).symm.trans hps
    exact fails_of_valueEntry h hcallee ha
  | predicate p =>
    have hsingle := Option.map_eq_none_iff.mp ha
    rw [Agent.call, hsingle]
    exact .throw _
  | signature s attributes =>
    have hsingle := Option.map_eq_none_iff.mp ha
    rw [Agent.call, hsingle]
    exact .throw _
  | guard g =>
    obtain ⟨positional, keywords⟩ := args
    cases keywords with
    | nil =>
      have hwrapped := (if_pos rfl).symm.trans hps
      exact (fails_of_valueEntry h hwrapped (Option.map_eq_none_iff.mp ha)).guardedCall
    | cons k keywords => exact .throw _

end Values

theorem fails_of_agentEntry {agents : List Agent} {id : ℕ} {args given : Arguments}
    {ps : List Parameter} (hps : boundByAgent agents id given = some ps)
    (h : agentEntry agents id args = none) : Fails (callAgent agents id args) := by
  induction agents generalizing id args given ps with
  | nil => cases hps
  | cons a older ih =>
    rw [agentEntry] at h
    rw [callAgent]
    by_cases hid : id = older.length
    · rw [if_pos hid] at h ⊢
      rw [hid] at hps
      exact Agent.fails_of_entry (fun id args given ps => ih) hps h
    · rw [if_neg hid] at h ⊢
      exact ih ((if_neg hid).symm.trans hps) h

/-- A call of a value whose arguments do not fit fails. -/
theorem World.fails_of_entry {w : World} {v : Value} {args : Arguments} {ps : List Parameter}
    (hps : w.boundParameters v = some ps) (h : w.entry v args = none) : Fails (w.caller v args) :=
  fails_of_valueEntry (fun _ _ _ _ => fails_of_agentEntry) hps h

end TypeGuard
