import TypeGuard.Proofs.Callable.Growth

/-! # Reported parameters

What is known about the parameters of a value comes from older callable objects. It stays known when
newer ones are added, so a value that can be called in one world has the same parameters and does
the same in all later worlds.
-/

namespace TypeGuard

namespace World

theorem agent?_cons_self {w : World} {a : Agent} :
    agent? { w with agents := a :: w.agents } w.agents.length = some a := by
  simp [agent?]

/-- What is found in the sequence of callable objects by their number does not depend on newer ones.
-/
theorem find_append {β : Type} (find : List Agent → ℕ → β)
    (h : ∀ {a older id}, id ≠ older.length → find (a :: older) id = find older id)
    (newer : List Agent) {older : List Agent} {id : ℕ} (hid : id < older.length) :
    find (newer ++ older) id = find older id := by
  induction newer with
  | nil => rfl
  | cons a newer ih =>
    have hne : id ≠ (newer ++ older).length := by
      rw [List.length_append]
      omega
    exact (h hne).trans ih

theorem callAgent_append (newer : List Agent) {older : List Agent} {id : ℕ}
    (hid : id < older.length) (args : Arguments) :
    callAgent (newer ++ older) id args = callAgent older id args :=
  find_append (fun agents id => callAgent agents id args) (fun hne => if_neg hne) newer hid

/-! ## Parameters of callable objects -/

theorem agentParameters_of_le {agents : List Agent} {kind : AgentKind} {id : ℕ}
    (h : agents.length ≤ id) : agentParameters agents kind id = none := by
  induction agents with
  | nil => rfl
  | cons a older ih =>
    rw [List.length_cons] at h
    exact (if_neg (by omega)).trans (ih (by omega))

theorem agentParameters_append (newer : List Agent) {older : List Agent} {kind : AgentKind} {id : ℕ}
    {ps : List Parameter} (h : agentParameters older kind id = some ps) :
    agentParameters (newer ++ older) kind id = some ps := by
  have hid : id < older.length := by
    by_contra hid
    rw [agentParameters_of_le (Nat.le_of_not_lt hid)] at h
    cases h
  exact (find_append (fun agents => agentParameters agents kind) (fun hne => if_neg hne) newer
    hid).trans h

/-! ## Parameters of values -/

section Values

/-- What is known in one way is known in another. -/
def IsToldBy (o o' : Option (List Parameter)) : Prop :=
  ∀ ps, o = some ps → o' = some ps

variable {agent agent' : AgentKind → ℕ → Option (List Parameter)}

theorem IsToldBy.refl (o : Option (List Parameter)) : IsToldBy o o :=
  fun _ => id

theorem IsToldBy.none (o : Option (List Parameter)) : IsToldBy none o :=
  nofun

theorem isToldBy_reported (attributes : List (String × Value))
    {wrapped wrapped' : Option (Option (List Parameter))} {own own' : Option (List Parameter)}
    (hwrapped : Option.Rel IsToldBy wrapped wrapped') (hown : IsToldBy own own') :
    IsToldBy (reported attributes wrapped own) (reported attributes wrapped' own') := by
  unfold reported
  split
  · exact hown
  · exact .none _
  · cases hwrapped with
    | some h => exact h
    | none => exact hown

variable (h : ∀ kind id, IsToldBy (agent kind id) (agent' kind id))

include h

/-- More can be found out about a value if more is known about callable objects. -/
theorem isToldBy_valueParameters (v : Value) :
    IsToldBy (valueParameters agent v) (valueParameters agent' v) := by
  induction v using valueParameters.induct
    (motive_1 := fun attributes => Option.Rel IsToldBy (valueParameters.ofWrapped agent attributes)
      (valueParameters.ofWrapped agent' attributes)) with
  | case1 kind id => exact h kind id
  | case2 c attributes ih =>
    apply isToldBy_reported attributes ih
    split
    · exact .none _
    · split
      · exact h _ _
      · exact .refl _
  | case3 id c content attributes ih =>
    apply isToldBy_reported attributes ih
    split
    · cases c.call with
      | none => exact .none _
      | some id => exact h _ _
    · exact .none _
  | case4 owner name => exact .refl _
  | case5 v hagent htype hinst hroutine =>
    cases v with
    | agent kind id => exact absurd rfl (hagent kind id)
    | type c attributes => exact absurd rfl (htype c attributes)
    | inst id c content attributes => exact absurd rfl (hinst id c content attributes)
    | routine owner name => exact absurd rfl (hroutine owner name)
    | _ => exact .none _
  | case6 => exact .none
  | case7 v attributes ih => exact .some ih
  | case8 key v attributes hkey ih =>
    rw [valueParameters.ofWrapped, valueParameters.ofWrapped, if_neg hkey, if_neg hkey]
    exact ih

end Values

def caller (w : World) : Caller :=
  callValue (callAgent w.agents)

theorem canCall_of_parameters {w : World} {v : Value} {ps : List Parameter}
    (h : w.parameters v = some ps) : w.canCall v = true :=
  (Option.ite_none_right_eq_some.mp h).1

theorem canCall_of_arity {w : World} {v : Value} {n : ℕ} (h : w.arity v = some n) :
    w.canCall v = true := by
  obtain ⟨ps, hps, -⟩ := Option.map_eq_some_iff.mp h
  exact canCall_of_parameters hps

theorem lt_length_of_canCall {w : World} {v : Value} (h : w.canCall v = true) :
    ∀ id ∈ calledBy v, id < w.agents.length :=
  fun id hid => of_decide_eq_true (List.all_eq_true.mp (Bool.and_eq_true_iff.mp h).2 id hid)

namespace GrowsTo

variable {w w' : World} {v : Value} {n : Nat}

theorem length_le (h : w.GrowsTo w') : w.agents.length ≤ w'.agents.length :=
  List.IsSuffix.length_le h

theorem canCall (h : w.GrowsTo w') (hv : w.canCall v = true) : w'.canCall v = true := by
  refine Bool.and_eq_true_iff.mpr ⟨(Bool.and_eq_true_iff.mp hv).1, List.all_eq_true.mpr ?_⟩
  intro id hid
  exact decide_eq_true (Nat.lt_of_lt_of_le (lt_length_of_canCall hv id hid) h.length_le)

/-- What can be called in one world does the same in all later worlds. -/
theorem caller_eq (h : w.GrowsTo w') (hv : w.canCall v = true) (args : Arguments) :
    w'.caller v args = w.caller v args := by
  obtain ⟨newer, hnewer⟩ := h
  have hlt := lt_length_of_canCall hv
  rw [caller, ← hnewer]
  cases v with
  | agent kind id => exact callAgent_append newer (hlt id (List.mem_singleton_self id)) args
  | type c attributes =>
    have hpart : ∀ part : Option ℕ, (∀ id ∈ part.toList, id < w.agents.length) →
        ClassInfo.runPart (callAgent (newer ++ w.agents)) part args =
          ClassInfo.runPart (callAgent w.agents) part args := by
      intro part hpart
      cases part with
      | none => rfl
      | some id => exact callAgent_append newer (hpart id (List.mem_singleton_self id)) args
    rw [caller, callValue, callValue, ClassInfo.new, ClassInfo.new,
      hpart c.makes fun id hid => hlt id (List.mem_append_left _ hid),
      hpart c.initializes fun id hid => hlt id (List.mem_append_right _ hid)]
  | inst id c content attributes =>
    rw [caller, callValue, callValue]
    cases hcall : c.call with
    | none => rfl
    | some id' =>
      refine callAgent_append newer (hlt id' ?_) args
      rw [calledBy, hcall]
      exact List.mem_singleton_self id'
  | _ => rfl

theorem parameters_eq {ps : List Parameter} (h : w.GrowsTo w') (hv : w.parameters v = some ps) :
    w'.parameters v = some ps := by
  rw [parameters, if_pos (h.canCall (canCall_of_parameters hv))]
  obtain ⟨newer, hnewer⟩ := h
  rw [← hnewer]
  exact isToldBy_valueParameters (fun kind id ps => agentParameters_append newer) v ps
    (Option.ite_none_right_eq_some.mp hv).2

theorem arity_eq (h : w.GrowsTo w') (hv : w.arity v = some n) : w'.arity v = some n := by
  obtain ⟨ps, hps, rfl⟩ := Option.map_eq_some_iff.mp hv
  exact congrArg (Option.map Parameter.arity) (h.parameters_eq hps)

theorem agent?_eq {id : ℕ} {a : Agent} (h : w.GrowsTo w') (hid : w.agent? id = some a) :
    w'.agent? id = some a := by
  obtain ⟨newer, hnewer⟩ := h
  rw [agent?, Option.ite_none_right_eq_some] at hid
  obtain ⟨hlt, hid⟩ := hid
  have hlength : w'.agents.length = newer.length + w.agents.length := by
    rw [← hnewer, List.length_append]
  rw [agent?, if_pos (by omega), hlength, ← hnewer, List.getElem?_append_right (by omega), ← hid]
  congr 1
  omega

end GrowsTo

end World

end TypeGuard
