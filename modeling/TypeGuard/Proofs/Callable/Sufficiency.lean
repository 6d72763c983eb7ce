import TypeGuard.Proofs.Callable.Entry
import TypeGuard.Proofs.Callable.Fixing
import TypeGuard.Proofs.Callable.Proper

/-! # What the arity guarantees

A signature goes around a function if their arities agree. That leaves out three things: what a
function reports need not be what its calls bind, parameters that take a keyword only are not
counted, and a partial application reports the parameters that are left even if it fixes keywords
for a guard, which takes none. Nothing else can go wrong: where the reported parameters are the bound
ones, a call of the guard binds them if and only if each parameter that takes a keyword only has a
default and no keyword is fixed for a guard.
-/

namespace TypeGuard

open Run

/-! ## Arguments in parts -/

namespace Arguments

def followedBy (given : Arguments) (args : List Value) : Arguments :=
  ⟨given.positional ++ args, given.keywords⟩

theorem behind_followedBy (given : Arguments) (args fixed : List Value)
    (keywords : List (String × Value)) :
    (given.followedBy args).behind fixed keywords = (given.behind fixed keywords).followedBy args := by
  simp [behind, followedBy]

theorem isEmpty_keywords_behind (given : Arguments) (fixed : List Value)
    (keywords : List (String × Value)) :
    (!(given.behind fixed keywords).keywords.isEmpty) =
      (!given.keywords.isEmpty || !keywords.isEmpty) := by
  obtain ⟨positional, given⟩ := given
  cases given <;> simp [behind]

end Arguments

namespace World

/-! ## What parameters tell -/

/-- Behind given arguments some parameters are left: they say which further arguments fit, unless
something is wrong already. -/
structure Leaves (ps : List Parameter) (entry : Arguments → Option (Run Value)) (given : Arguments)
    (wrong : Prop) : Prop where
  declared : Parameter.Declared ps
  isSome_iff : ∀ args : List Value, (entry (given.followedBy args)).isSome = true ↔
    ¬ wrong ∧ Parameter.Fits ps args.length []

variable {ps : List Parameter} {entry : Arguments → Option (Run Value)} {given : Arguments}
  {wrong : Prop}

/-- What is left of a list of parameters that arguments must fit. -/
theorem leaves_of_fits {whole : List Parameter} (hps : Parameter.Declared whole)
    (hfix : Parameter.fix whole given.positional given.keywords = some ps) (hwrong : ¬ wrong)
    (hentry : ∀ args : List Value, (entry (given.followedBy args)).isSome = true ↔
      Parameter.Fits whole (given.followedBy args).positional.length
        (given.keywords.map Prod.fst)) :
    Leaves ps entry given wrong := by
  obtain ⟨hdeclared, hfits⟩ := Parameter.fix_eq_some hps hfix
  refine ⟨hdeclared, fun args => ?_⟩
  rw [hentry, and_iff_right hwrong, hfits, Arguments.followedBy, List.length_append]

theorem leaves_of_bind {α : Type} {whole : List Parameter} (absent : α) (f : Value → α)
    (hps : Parameter.Declared whole)
    (hfix : Parameter.fix whole given.positional given.keywords = some ps) (hwrong : ¬ wrong)
    (hentry : ∀ args, (entry args).isSome =
      (Parameter.bind absent whole (args.positional.map f)
        (args.keywords.map fun k => (k.1, f k.2))).isSome) :
    Leaves ps entry given wrong := by
  refine leaves_of_fits hps hfix hwrong fun args => ?_
  rw [hentry, Parameter.isSome_bind_iff hps, List.length_map, List.map_map]
  rfl

theorem declared_builtinParameters {c : BuiltinClass} {ps : List Parameter}
    (h : builtinParameters c = some ps) : Parameter.Declared ps := by
  cases c <;> cases h <;> decide

theorem declared_fields {names : List String} (h : names.Nodup) :
    Parameter.Declared (names.map fun name => ⟨name, .positional, false⟩) := by
  refine List.pairwise_map.mpr (h.imp ?_)
  exact fun hne => ⟨hne, le_rfl, fun hdefault => absurd hdefault Bool.false_ne_true⟩

theorem leaves_content {c : ClassInfo} {inherited : List (String × Value)}
    (hc : ∀ names, c.fields = some names → names.Nodup)
    (hps : ((contentParameters c).bind fun whole =>
      Parameter.fix whole given.positional given.keywords) = some ps) (hwrong : ¬ wrong) :
    Leaves ps (c.contentEntry inherited) given wrong := by
  obtain ⟨whole, hwhole, hfix⟩ := Option.bind_eq_some_iff.mp hps
  rw [contentParameters] at hwhole
  split at hwhole
  · next names hfields =>
    obtain rfl := Option.some.inj hwhole
    refine leaves_of_bind Value.none id (declared_fields (hc names hfields)) hfix hwrong fun args => ?_
    simp [ClassInfo.contentEntry, hfields]
  · next hfields =>
    refine leaves_of_bind Option.none some (declared_builtinParameters hwhole) hfix hwrong
      fun args => ?_
    simp [ClassInfo.contentEntry, hfields, hwhole]

theorem isSome_single_iff {name : String} {args : Arguments}
    (h : (args.keywords.map Prod.fst).Nodup) :
    (args.single name).isSome = true ↔
      Parameter.Fits [⟨name, .positional, false⟩] args.positional.length
        (args.keywords.map Prod.fst) := by
  rw [Parameter.fits_singleton_iff h]
  obtain ⟨positional, keywords⟩ := args
  match positional, keywords with
  | [v], [] => simp [Arguments.single]
  | [], [(key, v)] => by_cases hk : key = name <;> simp [Arguments.single, hk]
  | [], [] => simp [Arguments.single]
  | [], _ :: _ :: _ => simp [Arguments.single]
  | [v], _ :: _ => simp [Arguments.single]
  | _ :: _ :: _, _ => simp [Arguments.single]

theorem leaves_single {name : String} (hkeys : (given.keywords.map Prod.fst).Nodup)
    (hfix : Parameter.fix [⟨name, .positional, false⟩] given.positional given.keywords = some ps)
    (hwrong : ¬ wrong) (h : ∀ args, (entry args).isSome = (args.single name).isSome) :
    Leaves ps entry given wrong := by
  refine leaves_of_fits (List.pairwise_singleton _ _) hfix hwrong fun args => ?_
  rw [h]
  exact isSome_single_iff hkeys

theorem leaves_class {c : ClassInfo} (inherited : List (String × Value))
    {entry : ℕ → Arguments → Option (Run Value)} {bound : ℕ → Option (List Parameter)}
    {wrong : ℕ → Prop} (hfields : ∀ names, c.fields = some names → names.Nodup)
    (hparts : ∀ id ∈ c.functions, bound id = some ps → Leaves ps (entry id) given (wrong id))
    (hps : boundByClass bound c given = some ps) :
    Leaves ps (c.entry entry inherited) given (∃ id ∈ c.functions, wrong id) := by
  obtain ⟨hfunctions, hcontent⟩ := ClassInfo.bound_parts hps
  have hpart : ∀ id ∈ c.functions, Leaves ps (entry id) given (wrong id) :=
    fun id hid => hparts id hid (hfunctions id hid)
  have hmade (htakes : c.takesArguments = true) :
      Leaves ps (c.contentEntry inherited) given False :=
    leaves_content hfields (hcontent htakes) id
  -- One of the parts tells what can be declared and what fits; if it is not the content, it is a
  -- function.
  have hsome : c.takesArguments = true ∨ ∃ id, id ∈ c.functions := by
    by_cases hnil : c.functions = []
    · exact .inl (ClassInfo.takesArguments_of_functions hnil)
    · exact .inr (List.exists_mem_of_ne_nil _ hnil)
  refine ⟨?_, fun args => ?_⟩
  · rcases hsome with htakes | ⟨id, hid⟩
    · exact (hmade htakes).declared
    · exact (hpart id hid).declared
  · rw [ClassInfo.isSome_entry_iff]
    constructor
    · rintro ⟨hentries, hentry⟩
      refine ⟨?_, ?_⟩
      · rintro ⟨id, hid, hwrong⟩
        exact (((hpart id hid).isSome_iff args).mp (hentries id hid)).1 hwrong
      · rcases hsome with htakes | ⟨id, hid⟩
        · exact (((hmade htakes).isSome_iff args).mp (hentry htakes)).2
        · exact (((hpart id hid).isSome_iff args).mp (hentries id hid)).2
    · rintro ⟨hright, hfits⟩
      refine ⟨fun id hid => ?_, fun htakes => ?_⟩
      · exact ((hpart id hid).isSome_iff args).mpr ⟨fun hwrong => hright ⟨id, hid, hwrong⟩, hfits⟩
      · exact ((hmade htakes).isSome_iff args).mpr ⟨id, hfits⟩

section Agents

variable {agents : List Agent}
  (h : ∀ id given ps, agentIsProper agents id → (given.keywords.map Prod.fst).Nodup →
    boundByAgent agents id given = some ps →
    Leaves ps (agentEntry agents id) given
      (agentFixesForGuard agents (!given.keywords.isEmpty) id))
  (hkeys : (given.keywords.map Prod.fst).Nodup)

include h hkeys

theorem leaves_value {v : Value} (hv : valueIsProper (agentIsProper agents) v)
    (hps : boundByValue (boundByAgent agents) v given = some ps) :
    Leaves ps (valueEntry (agentEntry agents) v) given
      (valueRuns (agentFixesForGuard agents (!given.keywords.isEmpty)) v) := by
  have hone {id : ℕ} (hid : calledBy v = [id])
      (hbound : boundByAgent agents id given = some ps) : Leaves ps (agentEntry agents id) given
        (valueRuns (agentFixesForGuard agents (!given.keywords.isEmpty)) v) := by
    have hproper := hv.1 id (hid ▸ List.mem_singleton_self id)
    simpa [valueRuns, hid] using h id given ps hproper hkeys hbound
  cases v with
  | agent kind id => exact hone rfl hps
  | type c attributes =>
    exact leaves_class attributes hv.2 (fun id hid => h id given ps (hv.1 id hid) hkeys) hps
  | inst id c content attributes =>
    obtain ⟨id', hcall, hps⟩ := Option.bind_eq_some_iff.mp hps
    have hentry : valueEntry (agentEntry agents) (.inst id c content attributes) =
        agentEntry agents id' := by
      funext args
      rw [valueEntry, hcall, Option.bind_some]
    rw [hentry]
    exact hone (by simp [calledBy, hcall]) hps
  | _ => cases hps

theorem leaves_application {callee : Value} {fixed : List Value}
    {keywords : List (String × Value)} (hcallee : valueIsProper (agentIsProper agents) callee)
    (hfixed : (keywords.map Prod.fst).Nodup)
    (hps : boundByValue (boundByAgent agents) callee (given.behind fixed keywords) = some ps) :
    Leaves ps (fun args => valueEntry (agentEntry agents) callee (args.behind fixed keywords)) given
      (valueRuns (agentFixesForGuard agents (!given.keywords.isEmpty || !keywords.isEmpty))
        callee) := by
  have hleaves := leaves_value h (nodup_keys_behind hfixed hkeys fixed given.positional) hcallee hps
  rw [Arguments.isEmpty_keywords_behind] at hleaves
  refine ⟨hleaves.declared, fun args => ?_⟩
  rw [Arguments.behind_followedBy]
  exact hleaves.isSome_iff args

theorem leaves_guard {g : Guard} {call : Caller} {number : ℕ}
    (hg : valueIsProper (agentIsProper agents) g.wrapped)
    (hps : boundByValue (boundByAgent agents) g.wrapped given = some ps) :
    Leaves ps (fun args => (Agent.guard g).entry call (valueEntry (agentEntry agents)) number args)
      given ((!given.keywords.isEmpty) = true ∨
        valueRuns (agentFixesForGuard agents false) g.wrapped) := by
  have hleaves := leaves_value h hkeys hg hps
  refine ⟨hleaves.declared, fun args => ?_⟩
  obtain ⟨positional, keywords⟩ := given
  cases keywords with
  | nil =>
    rw [or_iff_right (by simp), Agent.entry]
    exact Option.isSome_map.symm ▸ hleaves.isSome_iff args
  | cons k keywords => simp [Agent.entry, Arguments.followedBy]

end Agents

theorem leaves_agent {agents : List Agent} {id : ℕ} (hid : agentIsProper agents id)
    (hkeys : (given.keywords.map Prod.fst).Nodup) (hps : boundByAgent agents id given = some ps) :
    Leaves ps (agentEntry agents id) given
      (agentFixesForGuard agents (!given.keywords.isEmpty) id) := by
  induction agents generalizing id given ps with
  | nil => cases hps
  | cons a older ih =>
    by_cases hlast : id = older.length
    · subst hlast
      have hentry : agentEntry (a :: older) older.length =
          fun args => a.entry (callValue (callAgent older)) (valueEntry (agentEntry older))
            older.length args := funext fun args => if_pos rfl
      have hproper := (if_pos rfl).mp hid
      have hbound := (if_pos rfl).symm.trans hps
      have hwrong : agentFixesForGuard (a :: older) (!given.keywords.isEmpty) older.length = _ :=
        if_pos rfl
      rw [hentry, hwrong]
      cases a with
      | function f =>
        refine leaves_of_bind Value.none id hproper hbound id fun args => ?_
        simp [Agent.entry]
      | application callee fixed keywords attributes =>
        exact leaves_application (fun id given ps => ih) hkeys hproper.1 hproper.2 hbound
      | predicate p => exact leaves_single hkeys hbound id fun args => Option.isSome_map
      | signature s attributes => exact leaves_single hkeys hbound id fun args => Option.isSome_map
      | guard g => exact leaves_guard (fun id given ps => ih) hkeys hproper hbound
    · have hentry : agentEntry (a :: older) id = agentEntry older id :=
        funext fun args => if_neg hlast
      have hwrong : agentFixesForGuard (a :: older) (!given.keywords.isEmpty) id = _ := if_neg hlast
      rw [hentry, hwrong]
      exact ih ((if_neg hlast).mp hid) hkeys ((if_neg hlast).symm.trans hps)

/-- As many arguments as the arity have an entry if and only if no parameter needs a keyword and no
keyword is fixed for a guard. -/
theorem isSome_entry_iff {w : World} {v : Value} {ps : List Parameter} {args : List Value}
    (hv : w.IsProper v) (hps : w.boundParameters v = some ps)
    (hargs : args.length = Parameter.arity ps) :
    (w.entry v (.ofList args)).isSome = true ↔
      ¬ w.FixesForGuard v ∧ ∀ p ∈ ps, p.kind = .keywordOnly → p.hasDefault = true := by
  have hnodup : ((Arguments.ofList []).keywords.map Prod.fst).Nodup := List.nodup_nil
  have hleaves := leaves_value (fun id given ps => leaves_agent) hnodup hv hps
  rw [← Parameter.fits_arity_iff hleaves.declared, ← hargs]
  exact hleaves.isSome_iff args

end World

/-- A call of a guard whose arguments pass their tests goes on as a call of the function. -/
theorem Signature.execute_call_of_tests {s : Signature Value} {f g : Value} {w₀ w₁ w w' : World}
    {args : List Value} (h : (s.wrap f).execute w₀ = (.ok g, w₁)) (hw : w₁.GrowsTo w)
    (hargs : args.length = s.arity)
    (htests : (checkArguments 1 (s.layer w₀).params args).execute w = (.ok (), w')) :
    (g.call (.ofList args)).execute w =
      (do let v ← w₀.caller f (.ofList args); checkResult (s.layer w₀).result v : Run Value).execute
        w' := by
  have harity : w₁.arity g = some s.arity := (arity_of_wrap h).trans (wrap_eq_ok h).1
  have hcount : ¬ args.length ≠ (s.layer w₀).params.length := by
    rw [length_params_layer]
    exact not_not.mpr hargs
  rw [Value.execute_call, hw.caller_eq (World.canCall_of_arity harity), caller_of_wrap h,
    guardedCall, if_neg hcount]
  exact execute_bind_ok htests

/-- A call of a guard with as many arguments as its function's arity, all of which pass their tests,
binds them to the parameters of the function if and only if each parameter that takes a keyword
only has a default and no keyword is fixed for a guard. Then the call goes on with what the function
runs; otherwise it fails. Here the parameters that the function reports are those that its calls
bind. -/
theorem Signature.binds_of_wrap {s : Signature Value} {f g : Value} {w₀ w₁ : World}
    (h : (s.wrap f).execute w₀ = (.ok g, w₁)) (hf : w₀.IsProper f)
    (hbound : w₀.boundParameters f = w₀.parameters f) :
    ∃ ps, w₀.parameters f = some ps ∧ Parameter.arity ps = s.arity ∧
      ∀ w w' args, w₁.GrowsTo w → args.length = s.arity →
        (checkArguments 1 (s.layer w₀).params args).execute w = (.ok (), w') →
        ((w₀.entry f (.ofList args)).isSome = true ↔
          ¬ w₀.FixesForGuard f ∧ ∀ p ∈ ps, p.kind = .keywordOnly → p.hasDefault = true) ∧
        (∀ run, w₀.entry f (.ofList args) = some run →
          (g.call (.ofList args)).execute w =
            (do let v ← run; checkResult (s.layer w₀).result v : Run Value).execute w') ∧
        (w₀.entry f (.ofList args) = none →
          ∃ e, ((g.call (.ofList args)).execute w).1 = .error e) := by
  obtain ⟨ps, hps, harity⟩ := Option.map_eq_some_iff.mp (wrap_eq_ok h).1
  refine ⟨ps, hps, harity, fun w w' args hw hargs htests => ?_⟩
  have hcall := execute_call_of_tests h hw hargs htests
  refine ⟨World.isSome_entry_iff hf (hbound.trans hps) (hargs.trans harity.symm), ?_, ?_⟩
  · intro run hrun
    rwa [World.caller_of_entry hrun] at hcall
  · intro hnone
    rw [hcall]
    exact (World.fails_of_entry (hbound.trans hps) hnone).bind_left w'

/-- A function with its first argument and one keyword fixed, and with an attribute, of which another
keyword is fixed: one parameter is left to be given by position, and all others have defaults. -/
theorem Signature.binds_of_wrap_application :
    let pack : Agent := .function ⟨"pack", [⟨"p0", .positionalOnly, false⟩, ⟨"p1", .positional, false⟩,
      ⟨"p2", .positional, false⟩, ⟨"p3", .positional, true⟩, ⟨"p4", .keywords, false⟩], .list, []⟩
    let noted : Agent :=
      .application (.agent .function 0) [.str "a"] [("p2", .int 5)] [("note", .none)]
    let fixed : Agent := .application (.agent .application 1) [] [("p3", .int 7)] []
    let w₀ : World := { World.empty with agents := [fixed, noted, pack] }
    let f : Value := .agent .application 2
    let any : Predicate Value := ⟨.any, .any, .text "any"⟩
    let s : Signature Value := ⟨.foreign "object", [any], any, ""⟩
    let w₁ : World := { w₀ with agents := Agent.guard (s.guard f w₀) :: w₀.agents }
    let g : Value := .agent .guard 3
    (s.wrap f).execute w₀ = (.ok g, w₁) ∧ w₀.IsProper f ∧
      w₀.boundParameters f = w₀.parameters f ∧
      (w₀.entry f (.ofList [.str "x"])).isSome = true ∧
      ((g.call (.ofList [.str "x"])).execute w₁).1 = .ok (.list 0) := by
  intro pack noted fixed w₀ f any s w₁ g
  have h : (s.wrap f).execute w₀ = (.ok g, w₁) := rfl
  have hf : w₀.IsProper f := by
    have hpack : World.agentIsProper [pack] 0 := (if_pos rfl).mpr (by decide)
    have hnoted : World.agentIsProper [noted, pack] 1 :=
      (if_pos rfl).mpr ⟨World.valueIsProper_agent.mpr hpack, by decide⟩
    have hfixed : World.agentIsProper w₀.agents 2 :=
      (if_pos rfl).mpr ⟨World.valueIsProper_agent.mpr hnoted, by decide⟩
    exact World.valueIsProper_agent.mpr hfixed
  have hbound : w₀.boundParameters f = w₀.parameters f := rfl
  obtain ⟨ps, hps, -, hcalls⟩ := binds_of_wrap h hf hbound
  have hdefaults : ∀ p ∈ ps, p.kind = .keywordOnly → p.hasDefault = true := by
    rw [← Option.some.inj hps]
    decide
  have hfixes : ¬ w₀.FixesForGuard f := by
    intro hfixed
    have hnoted := World.valueRuns_agent.mp ((if_pos rfl).mp (World.valueRuns_agent.mp hfixed))
    exact World.valueRuns_agent.mp ((if_pos rfl).mp hnoted)
  have hentry := (hcalls w₁ w₁ [.str "x"] (.refl w₁) rfl rfl).1.mpr ⟨hfixes, hdefaults⟩
  exact ⟨h, hf, hbound, hentry, rfl⟩

/-- An arity that agrees is not enough by itself: a parameter that takes a keyword only and has no
default is not counted, and what fixes a keyword for a guard reports an arity but cannot be called.
A function can also report the parameters of what it wraps and bind others. In all three cases the
argument passes its test and the call fails before any function runs. -/
theorem Signature.unbound_of_wrap :
    let any : Predicate Value := ⟨.any, .any, .text "any"⟩
    let s : Signature Value := ⟨.foreign "object", [any], any, ""⟩
    let named : Agent := .function ⟨"named",
      [⟨"p0", .positional, false⟩, ⟨"p1", .keywordOnly, false⟩], .list, []⟩
    let w₀ : World := { World.empty with agents := [named] }
    let f : Value := .agent .function 0
    let w₁ : World := { w₀ with agents := Agent.guard (s.guard f w₀) :: w₀.agents }
    let g : Value := .agent .guard 1
    let pair : Agent := .function ⟨"pair",
      [⟨"p0", .positional, false⟩, ⟨"p1", .positional, true⟩], .list, []⟩
    let v₀ : World := { World.empty with agents := [pair] }
    let v₁ : World := { v₀ with agents := Agent.guard (s.guard f v₀) :: v₀.agents }
    let fixed : Agent := .application g [] [("p1", .int 5)] []
    let v₂ : World := { v₁ with agents := fixed :: v₁.agents }
    let k : Value := .agent .application 2
    let v₃ : World := { v₂ with agents := Agent.guard (s.guard k v₂) :: v₂.agents }
    let g' : Value := .agent .guard 3
    let one : Agent := .function ⟨"one", [⟨"p0", .positional, false⟩], .list, []⟩
    let two : Agent := .function ⟨"two", [⟨"p0", .positional, false⟩, ⟨"p1", .positional, false⟩],
      .list, [("__wrapped__", f)]⟩
    let u₀ : World := { World.empty with agents := [two, one] }
    let h : Value := .agent .function 1
    let u₁ : World := { u₀ with agents := Agent.guard (s.guard h u₀) :: u₀.agents }
    let g'' : Value := .agent .guard 2
    ((s.wrap f).execute w₀ = (.ok g, w₁) ∧
        (checkArguments 1 (s.layer w₀).params [.int 1]).execute w₁ = (.ok (), w₁) ∧
        (g.call (.ofList [.int 1])).execute w₁ = (.error .misuse, w₁)) ∧
      ((s.wrap f).execute v₀ = (.ok g, v₁) ∧ (s.wrap k).execute v₂ = (.ok g', v₃) ∧
        (checkArguments 1 (s.layer v₂).params [.int 1]).execute v₃ = (.ok (), v₃) ∧
        (g'.call (.ofList [.int 1])).execute v₃ = (.error .misuse, v₃)) ∧
      (s.wrap h).execute u₀ = (.ok g'', u₁) ∧
        (checkArguments 1 (s.layer u₀).params [.int 1]).execute u₁ = (.ok (), u₁) ∧
        (g''.call (.ofList [.int 1])).execute u₁ = (.error .misuse, u₁) :=
  ⟨⟨rfl, rfl, rfl⟩, ⟨rfl, rfl, rfl, rfl⟩, rfl, rfl, rfl⟩

end TypeGuard
