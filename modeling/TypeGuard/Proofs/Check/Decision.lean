import TypeGuard.Proofs.Callable.Growth

/-! # Decisions

A test asks callbacks, which may change the world. It decides a question over a set of worlds if it
answers it in each of them, always alike, and ends in a world of the set again.
-/

namespace TypeGuard

namespace Run

variable {α β : Type} {quiet : World → Prop}

/-- In every world of the set the computation returns the same value, and it ends in one of them. -/
def Settles (quiet : World → Prop) (x : Run α) (a : α) : Prop :=
  ∀ w, quiet w → ∃ w', quiet w' ∧ x.execute w = (.ok a, w')

namespace Settles

variable {x : Run α} {f : α → Run β} {a : α} {b : β}

theorem pure (a : α) : Settles quiet (Pure.pure a) a :=
  fun w hw => ⟨w, hw, rfl⟩

theorem bind (hx : Settles quiet x a) (hf : Settles quiet (f a) b) :
    Settles quiet (x >>= f) b := by
  intro w hw
  obtain ⟨w', hw', hx⟩ := hx w hw
  obtain ⟨w'', hw'', hf⟩ := hf w' hw'
  exact ⟨w'', hw'', (execute_bind_ok hx).trans hf⟩

/-- What is read from the world is settled if it is the same in all worlds of the set. -/
theorem read {f : World → α} (h : ∀ w, quiet w → f w = a) :
    Settles quiet (do return f (← world)) a := by
  intro w hw
  refine ⟨w, hw, ?_⟩
  rw [execute_bind_ok (execute_world w), h w hw]
  rfl

/-- What is settled does not fail, and so stays the same as a step of a generator. -/
theorem «sealed» (hx : Settles quiet x a) : Settles quiet x.sealed a := by
  intro w hw
  obtain ⟨w', hw', hx⟩ := hx w hw
  refine ⟨w', hw', ?_⟩
  rw [execute_sealed, hx]
  rfl

theorem of_execute {w w' : World} {b : α} (h : Settles quiet x a) (hw : quiet w)
    (hx : x.execute w = (.ok b, w')) : a = b := by
  obtain ⟨_, _, h⟩ := h w hw
  rw [hx, Prod.mk.injEq, Except.ok.injEq] at h
  exact h.1.symm

end Settles

/-- The computation answers a question in every world of the set. -/
def Decides (quiet : World → Prop) (x : Run Bool) (P : Prop) : Prop :=
  ∃ b, Settles quiet x b ∧ (b = true ↔ P)

namespace Decides

variable {x y : Run Bool} {P Q : Prop}

theorem pure (b : Bool) : Decides quiet (Pure.pure b) (b = true) :=
  ⟨b, .pure b, Iff.rfl⟩

theorem congr (h : Decides quiet x P) (hpq : P ↔ Q) : Decides quiet x Q := by
  obtain ⟨b, hb, hP⟩ := h
  exact ⟨b, hb, hP.trans hpq⟩

theorem and (hx : Decides quiet x P) (hy : Decides quiet y Q) :
    Decides quiet (do if ← x then y else return false) (P ∧ Q) := by
  obtain ⟨b, hb, hP⟩ := hx
  obtain ⟨c, hc, hQ⟩ := hy
  refine ⟨b && c, hb.bind ?_, by simp [hP, hQ]⟩
  cases b with
  | false => exact .pure false
  | true => exact hc

theorem or (hx : Decides quiet x P) (hy : Decides quiet y Q) :
    Decides quiet (do if ← x then return true else y) (P ∨ Q) := by
  obtain ⟨b, hb, hP⟩ := hx
  obtain ⟨c, hc, hQ⟩ := hy
  refine ⟨b || c, hb.bind ?_, by simp [hP, hQ]⟩
  cases b with
  | false => exact hc
  | true => exact .pure true

theorem bind {α : Type} {z : Run α} {f : α → Run Bool} {a : α} (hz : Settles quiet z a)
    (hf : Decides quiet (f a) P) : Decides quiet (z >>= f) P := by
  obtain ⟨b, hb, hP⟩ := hf
  exact ⟨b, hz.bind hb, hP⟩

theorem «sealed» (hx : Decides quiet x P) : Decides quiet x.sealed P := by
  obtain ⟨b, hb, hP⟩ := hx
  exact ⟨b, hb.sealed, hP⟩

theorem iff_of_execute {b : Bool} {w w' : World} (h : Decides quiet x P) (hw : quiet w)
    (hx : x.execute w = (.ok b, w')) : b = true ↔ P := by
  obtain ⟨c, hc, hP⟩ := h
  rwa [hc.of_execute hw hx] at hP

theorem settles (h : Decides quiet x P) (hP : P) : Settles quiet x true := by
  obtain ⟨b, hb, hbP⟩ := h
  rwa [hbP.mpr hP] at hb

end Decides

end Run

open Run

namespace Check

variable {quiet : World → Prop}

/-- Induction on the steps that are left; there are more of them than items. -/
theorem decides_allFrom {item : ℕ → Run (Option Value)} {test : Value → Run Bool}
    {P : Value → Prop} {vs : List Value} (hitem : ∀ index, Settles quiet (item index) vs[index]?)
    (h : ∀ v ∈ vs, Decides quiet (test v) (P v)) (steps index : ℕ)
    (hsteps : vs.length < index + steps) :
    Decides quiet (allFrom item test steps index) (∀ v ∈ vs.drop index, P v) := by
  induction steps generalizing index with
  | zero =>
    rw [List.drop_eq_nil_of_le (by omega)]
    exact (Decides.pure true).congr (by simp)
  | succ steps ih =>
    refine .bind (hitem index) ?_
    by_cases hindex : index < vs.length
    · rw [List.getElem?_eq_getElem hindex, List.drop_eq_getElem_cons hindex]
      have hrest := ih (index + 1) (by omega)
      exact ((h _ (List.getElem_mem hindex)).and hrest).congr List.forall_mem_cons.symm
    · rw [List.getElem?_eq_none (by omega), List.drop_eq_nil_of_le (by omega)]
      exact (Decides.pure true).congr (by simp)

end Check

end TypeGuard
