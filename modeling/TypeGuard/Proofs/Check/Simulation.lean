import TypeGuard.Proofs.Check.Meaning

/-! # Checks without effects

A check can be run without effects if it is known what lists hold and what its callbacks will
answer or how they will fail. Where every callback does in the world what is known of it, so does
the check: it ends with the same answer, or fails as the first callback that does.
-/

namespace TypeGuard

namespace Run

variable {α β ε : Type} {quiet : World → Prop} {raises : ε → Error → Prop}

/-- An outcome is the one that was expected: the same value, or an error that stands for the
expected failure. -/
inductive Agrees (raises : ε → Error → Prop) : Except ε α → Except Error α → Prop
  | ok (a : α) : Agrees raises (.ok a) (.ok a)
  | error {r : ε} {e : Error} : raises r e → Agrees raises (.error r) (.error e)

/-- In every world of the set the computation has the expected outcome, and it ends in one of them.
-/
def Follows (quiet : World → Prop) (raises : ε → Error → Prop) (x : Run α) (y : Except ε α) :
    Prop :=
  ∀ w, quiet w → ∃ outcome w', x.execute w = (outcome, w') ∧ quiet w' ∧ Agrees raises y outcome

namespace Follows

variable {x : Run α} {y : Except ε α} {f : α → Run β} {g : α → Except ε β}

theorem pure (a : α) : Follows quiet raises (Pure.pure a) (Pure.pure a : Except ε α) :=
  fun w hw => ⟨.ok a, w, rfl, hw, .ok a⟩

theorem of_settles {a : α} (h : Settles quiet x a) : Follows quiet raises x (.ok a : Except ε α) := by
  intro w hw
  obtain ⟨w', hw', hx⟩ := h w hw
  exact ⟨.ok a, w', hx, hw', .ok a⟩

theorem bind (hx : Follows quiet raises x y)
    (hf : ∀ a, y = .ok a → Follows quiet raises (f a) (g a)) :
    Follows quiet raises (x >>= f) (y >>= g) := by
  intro w hw
  obtain ⟨outcome, w', hx, hw', houtcome⟩ := hx w hw
  cases houtcome with
  | ok a =>
    obtain ⟨outcome, w'', hf, hw'', houtcome⟩ := hf a rfl w' hw'
    exact ⟨outcome, w'', (execute_bind_ok hx).trans hf, hw'', houtcome⟩
  | error hr => exact ⟨.error _, w', execute_bind_error hx, hw', .error hr⟩

theorem «sealed» (hraises : ∀ r e, raises r e → raises r e.sealed) (hx : Follows quiet raises x y) :
    Follows quiet raises x.sealed y := by
  intro w hw
  obtain ⟨outcome, w', hx, hw', houtcome⟩ := hx w hw
  refine ⟨outcome.mapError Error.sealed, w', ?_, hw', ?_⟩
  · rw [execute_sealed, hx]
  · cases houtcome with
    | ok a => exact .ok a
    | error hr => exact .error (hraises _ _ hr)

theorem ite {p : Prop} [Decidable p] {x' : Run α} {y' : Except ε α}
    (hx : p → Follows quiet raises x y) (hx' : ¬ p → Follows quiet raises x' y') :
    Follows quiet raises (if p then x else x') (if p then y else y') := by
  split
  · next hp => exact hx hp
  · next hp => exact hx' hp

end Follows

end Run

open Run

/-- Surroundings in which nothing changes: it is known what lists hold, and how callbacks answer or
fail. -/
def Surroundings.still {ε : Type} (items : Nat → List Value)
    (find : Value → Value → Except ε Bool) : Surroundings (Except ε) Value where
  length id := .ok (items id).length
  item id index := .ok (items id)[index]?
  capacity := World.capacity
  attributeOf v key := .ok (v.attribute? key)
  isInstance v c := .ok (v.isInstance c)
  ask := find
  sealed x := x

section Checks

variable {ε : Type} (quiet : World → Prop) (seen : Value → Prop) (raises : ε → Error → Prop)
  (items : Nat → List Value) (call : Caller) (find : Value → Value → Except ε Bool)

def Check.Follows (c : Check Value) : Prop :=
  ∀ v, seen v →
    Run.Follows quiet raises (c.test call v) (c.run (.still items find) v)

end Checks

namespace Check

variable {ε : Type} {quiet : World → Prop} {seen : Value → Prop} {raises : ε → Error → Prop}
  {items : Nat → List Value} {call : Caller} {find : Value → Value → Except ε Bool}

theorem follows_allFrom {item : ℕ → Run (Option Value)} {item' : ℕ → Except ε (Option Value)}
    {test : Value → Run Bool} {test' : Value → Except ε Bool}
    (hitem : ∀ index, Run.Follows quiet raises (item index) (item' index))
    (h : ∀ index v, item' index = .ok (some v) → Run.Follows quiet raises (test v) (test' v))
    (steps index : ℕ) :
    Run.Follows quiet raises (allFrom item test steps index) (allFrom item' test' steps index) := by
  induction steps generalizing index with
  | zero => exact .pure true
  | succ steps ih =>
    refine (hitem index).bind fun o ho => ?_
    cases o with
    | none => exact .pure true
    | some v =>
      refine (h index v ho).bind fun b _ => ?_
      exact .ite (fun _ => ih (index + 1)) fun _ => .pure false

theorem lengthOf_still (v : Value) :
    (Surroundings.still items find).lengthOf v = .ok ((v.itemsIn items).map List.length) := by
  unfold Surroundings.lengthOf Value.itemsIn
  cases v.core <;> rfl

theorem itemOf_still {v : Value} {vs : List Value} (hvs : v.itemsIn items = some vs) (index : ℕ) :
    (Surroundings.still items find).itemOf v index = .ok vs[index]? := by
  unfold Value.itemsIn at hvs
  unfold Surroundings.itemOf
  cases hcore : v.core with
  | list | tuple =>
    rw [hcore] at hvs
    obtain rfl := Option.some.inj hvs
    rfl
  | _ =>
    rw [hcore] at hvs
    cases hvs

theorem read_still (v : Value) (key : String) :
    (Surroundings.still items find).read v key = .ok (v.readProperty key) := by
  unfold Surroundings.read Value.readProperty
  cases v.core <;> rfl

section Items

variable (hcalm : World.Calm quiet seen items) {v : Value} (hv : seen v)

include hcalm hv

theorem follows_lengthOf :
    Run.Follows quiet raises ((Hooks.plain.surroundings call).lengthOf v)
      ((Surroundings.still items find).lengthOf v) := by
  rw [lengthOf_still]
  exact .of_settles (hcalm.settles_lengthOf hv)

theorem follows_itemOf {vs : List Value} (hvs : v.itemsIn items = some vs) (index : ℕ) :
    Run.Follows quiet raises ((Hooks.plain.surroundings call).itemOf v index)
      ((Surroundings.still items find).itemOf v index) := by
  rw [itemOf_still hvs]
  exact .of_settles (hcalm.settles_itemOf hv hvs index)

theorem seen_of_itemOf {vs : List Value} (hvs : v.itemsIn items = some vs) {index : ℕ} {u : Value}
    (hu : (Surroundings.still items find).itemOf v index = .ok (some u)) : seen u := by
  rw [itemOf_still hvs] at hu
  exact hcalm.item v hv vs hvs u (List.mem_of_getElem? (Except.ok.inj hu))

/-- What is done with the items of a value, if it has any, follows if it does for their number. -/
theorem follows_ofLength {f : ℕ → Run Bool} {g : ℕ → Except ε Bool}
    (h : ∀ vs, v.itemsIn items = some vs →
      Run.Follows quiet raises (f vs.length) (g vs.length)) :
    Run.Follows quiet raises
      (do match ← (Hooks.plain.surroundings call).lengthOf v with
        | none => return false
        | some n => f n)
      (do match ← (Surroundings.still items find).lengthOf v with
        | none => return false
        | some n => g n) := by
  apply (follows_lengthOf hcalm hv).bind
  intro n hn
  rw [lengthOf_still] at hn
  obtain rfl := Except.ok.inj hn
  cases hvs : v.itemsIn items with
  | none => exact .pure false
  | some vs => exact h vs hvs

end Items

theorem Follows.nullable {c : Check Value}
    (h : c.Follows quiet seen raises items call find) :
    (Check.nullable c).Follows quiet seen raises items call find := fun v hv =>
  .ite (fun _ => .pure true) fun _ => h v hv

section Sealed

variable (hraises : ∀ r e, raises r e → raises r e.sealed)

include hraises

theorem Follows.array (hcalm : World.Calm quiet seen items) {c : Check Value}
    (h : c.Follows quiet seen raises items call find) :
    (Check.array c).Follows quiet seen raises items call find := by
  intro v hv
  refine follows_ofLength hcalm hv fun vs hvs => ?_
  refine follows_allFrom (follows_itemOf hcalm hv hvs) (fun index u hu => ?_) _ 0
  exact (h u (seen_of_itemOf hcalm hv hvs hu)).sealed hraises

section Parts

variable {cs : List (Check Value)} (h : ∀ c ∈ cs, c.Follows quiet seen raises items call find)

include h

theorem follows_runEach (hcalm : World.Calm quiet seen items) {v : Value} (hv : seen v)
    {vs : List Value} (hvs : v.itemsIn items = some vs) (index : ℕ) :
    Run.Follows quiet raises (run.runEach (Hooks.plain.surroundings call) cs v index)
      (run.runEach (.still items find) cs v index) := by
  induction cs generalizing index with
  | nil => exact .pure true
  | cons c cs ih =>
    obtain ⟨hc, hcs⟩ := List.forall_mem_cons.mp h
    refine (follows_itemOf hcalm hv hvs index).bind fun o ho => ?_
    cases o with
    | none => exact .pure true
    | some u =>
      refine ((hc u (seen_of_itemOf hcalm hv hvs ho)).sealed hraises).bind fun b _ => ?_
      exact .ite (fun _ => ih hcs (index + 1)) fun _ => .pure false

theorem Follows.tuple (hcalm : World.Calm quiet seen items) :
    (Check.tuple cs).Follows quiet seen raises items call find := by
  intro v hv
  refine follows_ofLength hcalm hv fun vs hvs => ?_
  exact .ite (fun _ => .pure false) fun _ => follows_runEach hraises h hcalm hv hvs 0

theorem Follows.union : (Check.union cs).Follows quiet seen raises items call find := by
  intro v hv
  induction cs with
  | nil => exact .pure false
  | cons c cs ih =>
    obtain ⟨hc, hcs⟩ := List.forall_mem_cons.mp h
    apply ((hc v hv).sealed hraises).bind
    intro b _
    exact .ite (fun _ => .pure true) fun _ => ih hcs

theorem Follows.intersection :
    (Check.intersection cs).Follows quiet seen raises items call find := by
  intro v hv
  induction cs with
  | nil => exact .pure true
  | cons c cs ih =>
    obtain ⟨hc, hcs⟩ := List.forall_mem_cons.mp h
    apply ((hc v hv).sealed hraises).bind
    intro b _
    exact .ite (fun _ => ih hcs) fun _ => .pure false

end Parts

theorem follows_runFields (hcalm : World.Calm quiet seen items)
    {fields : List (String × Check Value)}
    (h : ∀ f ∈ fields, f.2.Follows quiet seen raises items call find) {v : Value} (hv : seen v) :
    Run.Follows quiet raises (run.runFields (Hooks.plain.surroundings call) fields v)
      (run.runFields (.still items find) fields v) := by
  induction fields with
  | nil => exact .pure true
  | cons f fields ih =>
    obtain ⟨hf, hfields⟩ := List.forall_mem_cons.mp h
    rw [runFields_cons, runFields_cons, read_plain, read_still, pure_bind]
    apply ((hf _ (hcalm.property v hv f.1)).sealed hraises).bind
    intro b _
    exact .ite (fun _ => ih hfields) fun _ => .pure false

theorem Follows.object (hcalm : World.Calm quiet seen items)
    {fields : List (String × Check Value)}
    (h : ∀ f ∈ fields, f.2.Follows quiet seen raises items call find) :
    (Check.object fields).Follows quiet seen raises items call find := fun _ hv =>
  .ite (fun _ => follows_runFields hraises hcalm h hv) fun _ => .pure false

end Sealed

end Check

end TypeGuard
