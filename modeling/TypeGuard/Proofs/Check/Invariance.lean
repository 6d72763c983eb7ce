import Mathlib
import TypeGuard.Check.Basic

/-! # Invariants of runs

A run of a check is put together from what its surroundings do. What holds of all that they do, and
passes from two computations to the one after the other, holds of the whole run.
-/

namespace TypeGuard

namespace Check

variable {ρ : Type}

def IsPlain (c : Check ρ) : Prop :=
  ∃ f : Value → Bool, ∀ (m : Type → Type) [Monad m] (s : Surroundings m ρ) (v : Value),
    c.run s v = pure (f v)

/-- A property that all plain checks have, and that passes from the parts of a check to the whole. -/
structure Spreads (P : Check ρ → Prop) : Prop where
  plain : ∀ {c}, c.IsPlain → P c
  nullable : ∀ {c}, P c → P (nullable c)
  array : ∀ {c}, P c → P (array c)
  tuple : ∀ {cs}, (∀ c ∈ cs, P c) → P (tuple cs)
  object : ∀ {fields : List (String × Check ρ)}, (∀ f ∈ fields, P f.2) → P (object fields)
  union : ∀ {cs}, (∀ c ∈ cs, P c) → P (union cs)
  intersection : ∀ {cs}, (∀ c ∈ cs, P c) → P (intersection cs)

/-- Induction over a check, with its parts in lists. -/
theorem Spreads.of_parts {P : Check ρ → Prop} (hP : Spreads P) (hinstance : ∀ c, P (instanceOf c))
    (hcallback : ∀ r, P (callback r)) (c : Check ρ) : P c := by
  refine @Check.rec ρ P (fun cs => ∀ c ∈ cs, P c) (fun fields => ∀ f ∈ fields, P f.2)
    (fun f => P f.2) (hP.plain ⟨_, fun _ _ _ _ => rfl⟩) (hP.plain ⟨_, fun _ _ _ _ => rfl⟩)
    (hP.plain ⟨_, fun _ _ _ _ => rfl⟩) (hP.plain ⟨_, fun _ _ _ _ => rfl⟩)
    (hP.plain ⟨_, fun _ _ _ _ => rfl⟩) (hP.plain ⟨_, fun _ _ _ _ => rfl⟩)
    (hP.plain ⟨_, fun _ _ _ _ => rfl⟩) (hP.plain ⟨_, fun _ _ _ _ => rfl⟩)
    (fun _ => hP.plain ⟨_, fun _ _ _ _ => rfl⟩) (fun _ => hP.plain ⟨_, fun _ _ _ _ => rfl⟩)
    hinstance hcallback (fun _ => hP.nullable) (fun _ => hP.array) (fun _ => hP.tuple)
    (fun _ => hP.object) (fun _ => hP.union) (fun _ => hP.intersection) ?_ ?_ ?_ ?_ ?_ c
  · exact fun _ h => absurd h List.not_mem_nil
  · exact fun _ _ hc hcs => List.forall_mem_cons.mpr ⟨hc, hcs⟩
  · exact fun _ h => absurd h List.not_mem_nil
  · exact fun _ _ hf hfields => List.forall_mem_cons.mpr ⟨hf, hfields⟩
  · exact fun _ _ h => h

end Check

variable {m : Type → Type} [Monad m] {ρ : Type}

/-- A property of computations that passes from two of them to the one after the other. -/
structure IsInvariant (G : (α : Type) → m α → Prop) : Prop where
  pure : ∀ {α : Type} (a : α), G α (Pure.pure a)
  bind : ∀ {α β : Type} {x : m α} {f : α → m β}, G α x → (∀ a, G β (f a)) →
    G β (x >>= f)

/-- All reading of the surroundings has a property, and generators keep it. -/
structure Surroundings.Have (s : Surroundings m ρ) (G : (α : Type) → m α → Prop) : Prop where
  length : ∀ id, G _ (s.length id)
  item : ∀ id index, G _ (s.item id index)
  attributeOf : ∀ v key, G _ (s.attributeOf v key)
  sealed : ∀ {x}, G _ x → G _ (s.sealed x)

section Invariant

variable {G : (α : Type) → m α → Prop} {s : Surroundings m ρ}

theorem IsInvariant.ite (hG : IsInvariant G) {x : m Bool} {y z : m Bool} (hx : G _ x) (hy : G _ y)
    (hz : G _ z) : G _ (do if ← x then y else z) :=
  hG.bind hx fun b => by cases b <;> assumption

namespace Surroundings.Have

variable (hG : IsInvariant G) (hs : s.Have G)

include hG hs

theorem lengthOf [LawfulMonad m] (v : Value) : G _ (s.lengthOf v) := by
  unfold Surroundings.lengthOf
  split
  · rw [← bind_pure_comp]
    exact hG.bind (hs.length _) fun n => hG.pure (some n)
  · exact hG.pure _
  · exact hG.pure none

theorem itemOf (v : Value) (index : ℕ) : G _ (s.itemOf v index) := by
  unfold Surroundings.itemOf
  split
  · exact hs.item _ index
  · exact hG.pure _
  · exact hG.pure none

theorem read (v : Value) (key : String) : G _ (s.read v key) := by
  unfold Surroundings.read
  split
  · exact hG.pure _
  · exact hG.bind (hs.attributeOf v key) fun a => hG.pure _

end Surroundings.Have

namespace Check

theorem have_allFrom (hG : IsInvariant G) {item : ℕ → m (Option Value)} {test : Value → m Bool}
    (hitem : ∀ index, G _ (item index)) (htest : ∀ v, G _ (test v)) (steps index : ℕ) :
    G _ (allFrom item test steps index) := by
  induction steps generalizing index with
  | zero => exact hG.pure true
  | succ steps ih =>
    apply hG.bind (hitem index)
    rintro (_ | v)
    · exact hG.pure true
    · exact hG.ite (htest v) (ih (index + 1)) (hG.pure false)

section Parts

variable (hG : IsInvariant G) (hs : s.Have G)

include hG hs

theorem have_runEach {cs : List (Check ρ)} (h : ∀ c ∈ cs, ∀ v, G _ (c.run s v)) (v : Value)
    (index : ℕ) : G _ (run.runEach s cs v index) := by
  induction cs generalizing index with
  | nil => exact hG.pure true
  | cons c cs ih =>
    obtain ⟨hc, hcs⟩ := List.forall_mem_cons.mp h
    apply hG.bind (hs.itemOf hG v index)
    rintro (_ | u)
    · exact hG.pure true
    · exact hG.ite (hs.sealed (hc u)) (ih hcs (index + 1)) (hG.pure false)

theorem have_runFields {fields : List (String × Check ρ)}
    (h : ∀ f ∈ fields, ∀ v, G _ (f.2.run s v)) (v : Value) : G _ (run.runFields s fields v) := by
  induction fields with
  | nil => exact hG.pure true
  | cons f fields ih =>
    obtain ⟨hf, hfields⟩ := List.forall_mem_cons.mp h
    have hread := hG.bind (hs.read hG v f.1) fun u => hf u
    exact hG.ite (hs.sealed hread) (ih hfields) (hG.pure false)

theorem have_runAny {cs : List (Check ρ)} (h : ∀ c ∈ cs, ∀ v, G _ (c.run s v)) (v : Value) :
    G _ (run.runAny s cs v) := by
  induction cs with
  | nil => exact hG.pure false
  | cons c cs ih =>
    obtain ⟨hc, hcs⟩ := List.forall_mem_cons.mp h
    exact hG.ite (hs.sealed (hc v)) (hG.pure true) (ih hcs)

theorem have_runAll {cs : List (Check ρ)} (h : ∀ c ∈ cs, ∀ v, G _ (c.run s v)) (v : Value) :
    G _ (run.runAll s cs v) := by
  induction cs with
  | nil => exact hG.pure true
  | cons c cs ih =>
    obtain ⟨hc, hcs⟩ := List.forall_mem_cons.mp h
    exact hG.ite (hs.sealed (hc v)) (ih hcs) (hG.pure false)

/-- What holds of all reading of the surroundings passes to the run of a check. -/
theorem spreads_have [LawfulMonad m] : Spreads fun c : Check ρ => ∀ v, G _ (c.run s v) where
  plain := by
    rintro c ⟨f, hf⟩ v
    rw [hf]
    exact hG.pure _
  nullable h v := by
    rw [run_nullable]
    split
    · exact hG.pure true
    · exact h v
  array h v := by
    apply hG.bind (hs.lengthOf hG v)
    rintro (_ | n)
    · exact hG.pure false
    · exact have_allFrom hG (hs.itemOf hG v) (fun u => hs.sealed (h u)) _ 0
  tuple h v := by
    apply hG.bind (hs.lengthOf hG v)
    rintro (_ | n)
    · exact hG.pure false
    · dsimp only
      split
      · exact hG.pure false
      · exact have_runEach hG hs h v 0
  object h v := by
    rw [run_object]
    split
    · exact have_runFields hG hs h v
    · exact hG.pure false
  union h := have_runAny hG hs h
  intersection h := have_runAll hG hs h

end Parts

end Check

end Invariant

end TypeGuard
