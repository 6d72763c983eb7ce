import TypeGuard.Proofs.TypeExpr.Expansion

/-! # Abridgement

A type with labels for its names is compared to the expanded type. If every label is no longer than
what it stands for then so is the whole text, and the two are the same exactly if they are the same
at every name.
-/

namespace TypeGuard

/-! ## Abridged texts -/

/-- A text no longer than another, and equal to it under one condition only. -/
structure Abridges (as bs : List Char) (P : Prop) : Prop where
  length_le : as.length ≤ bs.length
  eq_iff : as = bs ↔ P

namespace Abridges

variable {as bs as' bs' : List Char} {P Q : Prop}

theorem refl (as : List Char) : Abridges as as True :=
  ⟨Nat.le_refl _, by simp⟩

theorem congr (h : Abridges as bs P) (hpq : P ↔ Q) : Abridges as bs Q :=
  ⟨h.length_le, h.eq_iff.trans hpq⟩

theorem append (h : Abridges as bs P) (h' : Abridges as' bs' Q) :
    Abridges (as ++ as') (bs ++ bs') (P ∧ Q) := by
  constructor
  · rw [List.length_append, List.length_append]
    exact Nat.add_le_add h.length_le h'.length_le
  · rw [← h.eq_iff, ← h'.eq_iff]
    constructor
    · intro heq
      -- Neither piece is longer than its counterpart, so that both are as long.
      have hlen := congrArg List.length heq
      rw [List.length_append, List.length_append] at hlen
      have hle := h.length_le
      have hle' := h'.length_le
      exact List.append_inj heq (by omega)
    · rintro ⟨rfl, rfl⟩
      rfl

theorem append_left (cs : List Char) (h : Abridges as bs P) : Abridges (cs ++ as) (cs ++ bs) P :=
  ((refl cs).append h).congr (by simp)

theorem append_right (cs : List Char) (h : Abridges as bs P) : Abridges (as ++ cs) (bs ++ cs) P :=
  (h.append (refl cs)).congr (by simp)

theorem cons (c : Char) (h : Abridges as bs P) : Abridges (c :: as) (c :: bs) P :=
  h.append_left [c]

/-- Parentheses around the longer text alone make a difference. -/
theorem parenthesize_of_le {level level' : Level} (h : Abridges as bs P)
    (hle : level'.rank ≤ level.rank) (required : Level) :
    Abridges (parenthesize level required as) (parenthesize level' required bs)
      (P ∧ (level'.rank < required.rank ↔ level.rank < required.rank)) := by
  unfold parenthesize
  by_cases hlt : level.rank < required.rank
  · have hlt' : level'.rank < required.rank := by omega
    rw [if_pos hlt, if_pos hlt']
    exact ((h.append_right [')']).cons '(').congr (by simp [hlt, hlt'])
  rw [if_neg hlt]
  by_cases hlt' : level'.rank < required.rank
  · rw [if_pos hlt']
    have hlen : as.length < ('(' :: bs ++ [')']).length := by
      have := h.length_le
      simp
      omega
    constructor
    · exact Nat.le_of_lt hlen
    · simp only [hlt, hlt', iff_false, not_true_eq_false, and_false]
      rintro rfl
      exact Nat.lt_irrefl _ hlen
  · rw [if_neg hlt']
    exact h.congr (by simp [hlt, hlt'])

theorem parenthesize (h : Abridges as bs P) (level required : Level) :
    Abridges (TypeGuard.parenthesize level required as)
      (TypeGuard.parenthesize level required bs) P :=
  (h.parenthesize_of_le (Nat.le_refl level.rank) required).congr (by simp)

end Abridges

/-! ## Names and their places -/

namespace TypeExpr

/-- The names in a type, each with the level that its place requires. -/
def names (required : Level) : TypeExpr → List (String × Level)
  | nullable t => t.names .nullable
  | array t => t.names .function
  | tuple ts => namesOfAll .function ts
  | object ps => namesOfValues ps
  | union ts => namesOfAll .intersection ts
  | intersection ts => namesOfAll .nullable ts
  | named name => [(name, required)]
  | function ps t => namesOfAll .function ps ++ t.names .function
  | _ => []
termination_by structural t => t
where
  namesOfAll (required : Level) : List TypeExpr → List (String × Level)
    | [] => []
    | t :: ts => t.names required ++ namesOfAll required ts
  termination_by structural ts => ts
  namesOfValues : List (Property TypeExpr) → List (String × Level)
    | [] => []
    | ⟨_, _, value⟩ :: ps => value.names .function ++ namesOfValues ps
  termination_by structural ps => ps

section Abridgement

variable {labels : Labels} {f : String → Option TypeExpr} {P : String × Level → Prop}

theorem abridges_renderAll {required : Level} {ts : List TypeExpr} (separator : List Char)
    (h : ∀ t ∈ ts, Abridges (t.render labels required)
      ((t.expand f).render (fun _ => none) required) (∀ o ∈ t.names required, P o)) :
    Abridges (render.renderAll labels required separator ts)
      (render.renderAll (fun _ => none) required separator (expand.expandAll f ts))
      (∀ o ∈ names.namesOfAll required ts, P o) := by
  induction ts with
  | nil => exact (Abridges.refl []).congr (by simp [names.namesOfAll])
  | cons t ts ih =>
    obtain ⟨ht, hts⟩ := List.forall_mem_cons.mp h
    cases ts with
    | nil => exact ht.congr (by simp [names.namesOfAll])
    | cons u us =>
      exact ((ht.append_right separator).append (ih hts)).congr
        List.forall_mem_append.symm

theorem abridges_renderProperties {ps : List (Property TypeExpr)}
    (h : ∀ p ∈ ps, Abridges (p.value.render labels .function)
      ((p.value.expand f).render (fun _ => none) .function)
      (∀ o ∈ p.value.names .function, P o)) :
    Abridges (render.renderProperties labels ps)
      (render.renderProperties (fun _ => none) (expand.expandValues f ps))
      (∀ o ∈ names.namesOfValues ps, P o) := by
  induction ps with
  | nil => exact (Abridges.refl []).congr (by simp [names.namesOfValues])
  | cons p ps ih =>
    obtain ⟨hp, hps⟩ := List.forall_mem_cons.mp h
    have hentry := hp.append_left
      (Text.literal p.key.toList ++ (if p.optional then ['?'] else []) ++ [':', ' '])
    cases ps with
    | nil => exact hentry.congr (by simp [names.namesOfValues])
    | cons p' ps' =>
      exact ((hentry.append_right [',', ' ']).append (ih hps)).congr
        List.forall_mem_append.symm

/-- If each label abridges what replaces its name, a type with labels abridges the expanded type. -/
theorem abridges_render
    (h : ∀ name required, Abridges (renderName labels required name)
      ((expandName f name).render (fun _ => none) required) (P (name, required)))
    (t : TypeExpr) (required : Level) :
    Abridges (t.render labels required) ((t.expand f).render (fun _ => none) required)
      (∀ o ∈ t.names required, P o) := by
  induction t using TypeExpr.induction generalizing required with
  | named name => exact (h name required).congr (by simp [names])
  | nullable t ih => exact ((ih .nullable).cons '?').parenthesize .nullable required
  | array t ih => exact ((ih .function).append_left "Array<".toList).append_right ['>']
  | tuple ts ih =>
    have hts := abridges_renderAll [',', ' '] fun t ht => ih t ht .function
    exact (hts.cons '[').append_right [']']
  | object ps ih =>
    cases ps with
    | nil => exact (Abridges.refl ['{', '}']).congr (by simp [names, names.namesOfValues])
    | cons p ps =>
      have hps := abridges_renderProperties fun p hp => ih p hp .function
      exact (hps.append_left ['{', ' ']).append_right [' ', '}']
  | union ts ih =>
    have hts := abridges_renderAll [' ', '|', ' '] fun t ht => ih t ht .intersection
    exact hts.parenthesize .union required
  | intersection ts ih =>
    have hts := abridges_renderAll [' ', '&', ' '] fun t ht => ih t ht .nullable
    exact hts.parenthesize .intersection required
  | function ps t ihps iht =>
    have hps := abridges_renderAll [',', ' '] fun t ht => ihps t ht .function
    have hparams := (hps.cons '(').append_right ") => ".toList
    have hboth := hparams.append (iht .function)
    exact (hboth.parenthesize .function required).congr List.forall_mem_append.symm
  | _ => exact (Abridges.refl _).congr (by simp [names])

end Abridgement

end TypeExpr

end TypeGuard
