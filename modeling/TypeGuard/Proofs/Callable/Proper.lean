import TypeGuard.Proofs.Callable.Binding
import TypeGuard.Proofs.Callable.Stack

/-! # Proper callables

What holds of the callable objects that programs make: functions declare parameters in order and
under different names, and an application fixes each keyword once. It holds of what is made of proper
values, and stays in all later worlds. That no keyword is fixed for a guard is not among it.
-/

namespace TypeGuard

open Run

namespace World

def valueRuns (agent : ℕ → Prop) (v : Value) : Prop :=
  ∃ id ∈ calledBy v, agent id

theorem valueRuns_agent {agent : ℕ → Prop} {kind : AgentKind} {id : ℕ} :
    valueRuns agent (.agent kind id) ↔ agent id := by
  simp [valueRuns, calledBy]

/-- Somewhere in a callable object keywords come to a guard. They are keywords of the call, if there
are any, or are fixed on the way. -/
def agentFixesForGuard : List Agent → Bool → ℕ → Prop
  | [], _, _ => False
  | a :: older, keyed, id =>
    if id = older.length then
      match a with
      | .application callee _ keywords _ =>
        valueRuns (agentFixesForGuard older (keyed || !keywords.isEmpty)) callee
      | .guard g => keyed = true ∨ valueRuns (agentFixesForGuard older false) g.wrapped
      | _ => False
    else agentFixesForGuard older keyed id

def FixesForGuard (w : World) (v : Value) : Prop :=
  valueRuns (agentFixesForGuard w.agents false) v

/-- The fields of a class have different names, and what a value runs is proper. -/
def valueIsProper (agent : ℕ → Prop) (v : Value) : Prop :=
  (∀ id ∈ calledBy v, agent id) ∧
    match v with
    | .type c _ => ∀ names, c.fields = some names → names.Nodup
    | _ => True

theorem valueIsProper_agent {agent : ℕ → Prop} {kind : AgentKind} {id : ℕ} :
    valueIsProper agent (.agent kind id) ↔ agent id := by
  simp [valueIsProper, calledBy]

def agentIsProper : List Agent → ℕ → Prop
  | [], _ => False
  | a :: older, id =>
    if id = older.length then
      match a with
      | .function f => Parameter.Declared f.params
      | .application callee _ keywords _ =>
        valueIsProper (agentIsProper older) callee ∧ (keywords.map Prod.fst).Nodup
      | .guard g => valueIsProper (agentIsProper older) g.wrapped
      | _ => True
    else agentIsProper older id

/-- A value as programs make them. -/
def IsProper (w : World) (v : Value) : Prop :=
  valueIsProper (agentIsProper w.agents) v

/-! ## Later worlds -/

theorem agentIsProper_append (newer : List Agent) {older : List Agent} {id : ℕ}
    (hid : id < older.length) :
    agentIsProper (newer ++ older) id = agentIsProper older id :=
  find_append agentIsProper (fun hne => if_neg hne) newer hid

theorem lt_length_of_agentIsProper {agents : List Agent} {id : ℕ} (h : agentIsProper agents id) :
    id < agents.length := by
  induction agents with
  | nil => cases h
  | cons a older ih =>
    rw [List.length_cons]
    by_cases hlast : id = older.length
    · omega
    · have := ih ((if_neg hlast).mp h)
      omega

theorem valueIsProper_append (newer : List Agent) {older : List Agent} {v : Value}
    (h : valueIsProper (agentIsProper older) v) :
    valueIsProper (agentIsProper (newer ++ older)) v := by
  refine h.imp_left fun hcalled id hid => ?_
  rw [agentIsProper_append newer (lt_length_of_agentIsProper (hcalled id hid))]
  exact hcalled id hid

theorem GrowsTo.isProper {w w' : World} {v : Value} (h : w.GrowsTo w') (hv : w.IsProper v) :
    w'.IsProper v := by
  obtain ⟨newer, hnewer⟩ := h
  rw [IsProper, ← hnewer]
  exact valueIsProper_append newer hv

/-! ## What is made of proper values -/

theorem agent?_cons {w : World} {a : Agent} {id : ℕ} :
    agent? { w with agents := a :: w.agents } id =
      if id = w.agents.length then some a else w.agent? id := by
  rcases lt_trichotomy id w.agents.length with hlt | rfl | hgt
  · have hindex : w.agents.length + 1 - 1 - id = w.agents.length - 1 - id + 1 := by omega
    rw [if_neg hlt.ne, agent?, agent?, List.length_cons, if_pos (by omega), if_pos hlt, hindex]
    rfl
  · rw [if_pos rfl, agent?_cons_self]
  · rw [if_neg hgt.ne', agent?, agent?, List.length_cons, if_neg (by omega), if_neg (by omega)]

theorem isProper_of_application {w : World} {id : ℕ} {callee : Value} {fixed : List Value}
    {keywords attributes : List (String × Value)} (h : agentIsProper w.agents id)
    (hid : w.agent? id = some (.application callee fixed keywords attributes)) :
    w.IsProper callee ∧ (keywords.map Prod.fst).Nodup := by
  obtain ⟨lists, agents, classes, instances, calls⟩ := w
  induction agents with
  | nil => cases h
  | cons a older ih =>
    have hcons : agent? ⟨lists, a :: older, classes, instances, calls⟩ id = _ :=
      agent?_cons (w := ⟨lists, older, classes, instances, calls⟩)
    rw [hcons] at hid
    split at hid
    · next hlast =>
      obtain rfl := Option.some.inj hid
      exact ((if_pos hlast).mp h).imp_left (valueIsProper_append [_])
    · next hlast => exact (ih ((if_neg hlast).mp h) hid).imp_left (valueIsProper_append [_])

theorem isProper_newAgent {w : World} {a : Agent} (isMethod : Bool)
    (h : agentIsProper (a :: w.agents) w.agents.length) :
    (newAgent a isMethod w).2.IsProper (newAgent a isMethod w).1 :=
  valueIsProper_agent.mpr h

theorem isProper_newFunction {f : Function} (isMethod : Bool) (w : World)
    (h : Parameter.Declared f.params) :
    (newAgent (.function f) isMethod w).2.IsProper (newAgent (.function f) isMethod w).1 :=
  isProper_newAgent isMethod ((if_pos rfl).mpr h)

theorem isProper_newApplication {w : World} {callee : Value} {fixed : List Value}
    {keywords : List (String × Value)} (h : w.IsProper callee)
    (hkeys : (keywords.map Prod.fst).Nodup) :
    (newAgent (.application callee fixed keywords []) false w).2.IsProper
      (newAgent (.application callee fixed keywords []) false w).1 :=
  isProper_newAgent false ((if_pos rfl).mpr ⟨h, hkeys⟩)

theorem nodup_keys_behind {fixed keywords : List (String × Value)}
    (hfixed : (fixed.map Prod.fst).Nodup) (hkeys : (keywords.map Prod.fst).Nodup)
    (before args : List Value) :
    (((Arguments.mk args keywords).behind before fixed).keywords.map Prod.fst).Nodup := by
  rw [Arguments.behind, List.map_append]
  refine List.nodup_append.mpr ⟨hfixed.sublist (List.filter_sublist.map _), hkeys, ?_⟩
  rintro key hkey _ hkey' rfl
  obtain ⟨k, hk, rfl⟩ := List.mem_map.mp hkey
  obtain ⟨k', hk', heq⟩ := List.mem_map.mp hkey'
  have hnone := List.lookup_eq_none_iff.mp (by simpa using (List.mem_filter.mp hk).2) k' hk'
  simp [heq] at hnone

theorem fixArguments_agent (kind : AgentKind) (id : ℕ) (args : List Value)
    (keywords : List (String × Value)) (w : World) :
    fixArguments (.agent kind id) args keywords w =
      match w.agent? id with
      | some (.application callee before fixed []) =>
        newAgent (.application callee (before ++ args)
          ((Arguments.mk args keywords).behind before fixed).keywords []) false w
      | _ => newAgent (.application (.agent kind id) args keywords []) false w := by
  unfold fixArguments
  simp only [bind, StateT.bind, get, getThe, MonadStateOf.get, StateT.get, pure]
  cases w.agent? id with
  | none => rfl
  | some a =>
    cases a with
    | application callee before fixed attributes => cases attributes <;> rfl
    | _ => rfl

theorem isProper_fixArguments {w : World} {callee : Value} {args : List Value}
    {keywords : List (String × Value)} (h : w.IsProper callee)
    (hkeys : (keywords.map Prod.fst).Nodup) :
    (fixArguments callee args keywords w).2.IsProper (fixArguments callee args keywords w).1 := by
  cases callee with
  | agent kind id =>
    rw [fixArguments_agent]
    split
    · next callee before fixed ha =>
      obtain ⟨hcallee, hfixed⟩ := isProper_of_application (valueIsProper_agent.mp h) ha
      exact isProper_newApplication hcallee (nodup_keys_behind hfixed hkeys before args)
    · exact isProper_newApplication h hkeys
  | _ => exact isProper_newApplication h hkeys

end World

theorem Signature.isProper_of_wrap {s : Signature Value} {f g : Value} {w w' : World}
    (h : (s.wrap f).execute w = (.ok g, w')) (hf : w.IsProper f) : w'.IsProper g := by
  obtain ⟨-, rfl, rfl⟩ := wrap_eq_ok h
  exact World.isProper_newAgent false ((if_pos rfl).mpr hf)

end TypeGuard
