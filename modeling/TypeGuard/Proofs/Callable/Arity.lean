import TypeGuard.Proofs.Callable.Stack

/-! # Arity under guards

A guard declares the parameters of what it wraps, so that a function keeps its arity under any
number of guards, and each of them keeps its own types and what it was given. Whether another
signature fits is decided by its number of parameters alone, before anything is called.
-/

namespace TypeGuard

open Run

namespace World

def guard? (w : World) : Value → Option Guard
  | .agent _ id =>
    match w.agent? id with
    | some (.guard g) => some g
    | _ => none
  | _ => none

theorem guard?_eq_some_iff {w : World} {v : Value} {g : Guard} :
    w.guard? v = some g ↔ ∃ kind id, v = .agent kind id ∧ w.agent? id = some (.guard g) := by
  constructor
  · intro h
    unfold guard? at h
    split at h
    · next kind id =>
      split at h
      · next g' hid =>
        obtain rfl := Option.some.inj h
        exact ⟨kind, id, rfl, hid⟩
      · cases h
    · cases h
  · rintro ⟨kind, id, rfl, hid⟩
    rw [guard?, hid]

theorem GrowsTo.guard?_eq {w w' : World} {v : Value} {g : Guard} (h : w.GrowsTo w')
    (hv : w.guard? v = some g) : w'.guard? v = some g := by
  obtain ⟨kind, id, rfl, hid⟩ := guard?_eq_some_iff.mp hv
  exact guard?_eq_some_iff.mpr ⟨kind, id, rfl, h.agent?_eq hid⟩

end World

/-- To put a value under a signature is to add a guard to the world if the arities agree, and to
report both arities and change nothing otherwise. -/
theorem Signature.execute_wrap (s : Signature Value) {f : Value} {w : World} {n : ℕ}
    (hf : w.arity f = some n) :
    (s.wrap f).execute w =
      if s.arity = n then
        (.ok (.agent .guard w.agents.length),
          { w with agents := Agent.guard (s.guard f w) :: w.agents })
      else (.error (.validation (.arity s.arity n)), w) := by
  rw [wrap, execute_bind_ok (execute_world w), hf]
  by_cases hn : s.arity = n
  · simp [hn, guard, World.newAgent, World.kindOf]
  · have hne : n ≠ s.arity := fun h => hn h.symm
    simp [hn, hne]

/-- A signature put around a value, and the guard that came of it. -/
structure Wrapping where
  signature : Signature Value
  given : Value
  guard : Value

/-- What a signature is put around next: the outermost guard, or the function itself. -/
def outermost (f : Value) (layers : List Wrapping) : Value :=
  (layers.head?.map Wrapping.guard).getD f

/-- A function that was put under signature after signature, the outermost first, in a world that
may change in between. -/
inductive Tower (f : Value) (w₀ : World) : List Wrapping → World → Prop
  | base : Tower f w₀ [] w₀
  | wrap {layers w} {s : Signature Value} {g w'} : Tower f w₀ layers w →
      (s.wrap (outermost f layers)).execute w = (.ok g, w') →
      Tower f w₀ (⟨s, outermost f layers, g⟩ :: layers) w'
  | later {layers w w'} : Tower f w₀ layers w → w.GrowsTo w' → Tower f w₀ layers w'

/-- A layer as it was made: its guard has the types of its signature, wraps what it was given, and
has and declares as many parameters as the function. -/
structure Wrapping.IsKept (n : ℕ) (w : World) (l : Wrapping) (g : Guard) : Prop where
  guard : w.guard? l.guard = some g
  wrapped : g.wrapped = l.given
  params : g.params = l.signature.params
  result : g.result = l.signature.result
  length : g.params.length = n
  arity : w.arity l.guard = some n

theorem Wrapping.IsKept.later {n : ℕ} {w w' : World} {l : Wrapping} {g : Guard}
    (h : l.IsKept n w g) (hw : w.GrowsTo w') : l.IsKept n w' g :=
  { h with guard := hw.guard?_eq h.guard, arity := hw.arity_eq h.arity }

namespace Tower

variable {f : Value} {w₀ w : World} {layers : List Wrapping} {ps : List Parameter}

theorem parameters_eq (h : Tower f w₀ layers w) (hf : w₀.parameters f = some ps) :
    w.parameters (outermost f layers) = some ps := by
  induction h with
  | base => exact hf
  | wrap _ h ih => exact (Signature.parameters_of_wrap h).trans ih
  | later _ h ih => exact h.parameters_eq ih

theorem isKept (h : Tower f w₀ layers w) (hf : w₀.parameters f = some ps) :
    ∀ l ∈ layers, ∃ g, l.IsKept (Parameter.arity ps) w g := by
  induction h with
  | base => exact fun _ hl => absurd hl List.not_mem_nil
  | @wrap layers w s g w' htower h ih =>
    have hgrows : w.GrowsTo w' := by
      have hgrows := s.grows_wrap (outermost f layers) w
      rwa [h] at hgrows
    have harity : w.arity (outermost f layers) = some (Parameter.arity ps) :=
      congrArg (Option.map Parameter.arity) (htower.parameters_eq hf)
    refine List.forall_mem_cons.mpr ⟨?_, ?_⟩
    · have hnew : w'.arity g = some (Parameter.arity ps) := (Signature.arity_of_wrap h).trans harity
      obtain ⟨hs, rfl, rfl⟩ := Signature.wrap_eq_ok h
      have hguard : World.guard? _ _ = some (s.guard (outermost f layers) w) :=
        World.guard?_eq_some_iff.mpr ⟨.guard, w.agents.length, rfl, World.agent?_cons_self⟩
      exact ⟨_, hguard, rfl, rfl, rfl, Option.some.inj (hs.symm.trans harity), hnew⟩
    · intro l hl
      obtain ⟨g', hg'⟩ := ih l hl
      exact ⟨g', hg'.later hgrows⟩
  | later _ h ih =>
    intro l hl
    obtain ⟨g, hg⟩ := ih l hl
    exact ⟨g, hg.later h⟩

/-- What each layer was given is the guard below it, and the function at the bottom. -/
theorem guards_append (h : Tower f w₀ layers w) :
    layers.map Wrapping.guard ++ [f] = outermost f layers :: layers.map Wrapping.given := by
  induction h with
  | base => rfl
  | wrap _ _ ih => exact congrArg (List.cons _) ih
  | later _ _ ih => exact ih

/-- The arity of a function survives every layer: the outermost guard declares the parameters of the
function, each guard keeps its own types and what it was given, and another signature goes around
the outermost guard if and only if it has that many parameters. Otherwise the error holds both
numbers; in neither case is anything called. -/
theorem arity_survives (h : Tower f w₀ layers w) (hf : w₀.parameters f = some ps) :
    w.parameters (outermost f layers) = some ps ∧
      w.arity (outermost f layers) = some (Parameter.arity ps) ∧
      (∀ l ∈ layers, ∃ g, l.IsKept (Parameter.arity ps) w g) ∧
      layers.map Wrapping.guard ++ [f] = outermost f layers :: layers.map Wrapping.given ∧
      ∀ s : Signature Value,
        ((∃ g w', (s.wrap (outermost f layers)).execute w = (.ok g, w') ∧ w'.calls = w.calls ∧
            Tower f w₀ (⟨s, outermost f layers, g⟩ :: layers) w') ↔
          s.arity = Parameter.arity ps) ∧
        (s.arity ≠ Parameter.arity ps →
          (s.wrap (outermost f layers)).execute w =
            (.error (.validation (.arity s.arity (Parameter.arity ps))), w)) := by
  have hparams := h.parameters_eq hf
  have harity : w.arity (outermost f layers) = some (Parameter.arity ps) :=
    congrArg (Option.map Parameter.arity) hparams
  refine ⟨hparams, harity, h.isKept hf, h.guards_append, fun s => ⟨?_, ?_⟩⟩
  · constructor
    · rintro ⟨g, w', hwrap, -, -⟩
      exact Option.some.inj ((Signature.wrap_eq_ok hwrap).1.symm.trans harity)
    · intro hs
      have hwrap := s.execute_wrap harity
      rw [if_pos hs] at hwrap
      exact ⟨_, _, hwrap, rfl, h.wrap hwrap⟩
  · intro hs
    rw [s.execute_wrap harity, if_neg hs]

/-- A function of two parameters with the first one fixed, under two signatures of one parameter: a
third one of one parameter fits, and one without parameters does not. -/
theorem arity_survives_of_two :
    let pair : Agent := .function ⟨"pair",
      [⟨"p0", .positional, false⟩, ⟨"p1", .positional, false⟩, ⟨"p2", .keywordOnly, true⟩], .list, []⟩
    let fixed : Agent := .application (.agent .function 0) [.str "x"] [] []
    let w₀ : World := { World.empty with agents := [fixed, pair] }
    let f : Value := .agent .application 1
    let any : Predicate Value := ⟨.any, .any, .text "any"⟩
    let s : Signature Value := ⟨.foreign "object", [any], any, ""⟩
    let t : Signature Value := ⟨.foreign "object", [], any, ""⟩
    let w₁ : World := { w₀ with agents := Agent.guard (s.guard f w₀) :: w₀.agents }
    let g₁ : Value := .agent .guard 2
    let w₂ : World := { w₁ with agents := Agent.guard (s.guard g₁ w₁) :: w₁.agents }
    let g₂ : Value := .agent .guard 3
    Tower f w₀ [⟨s, g₁, g₂⟩, ⟨s, f, g₁⟩] w₂ ∧
      w₀.parameters f = some [⟨"p1", .positional, false⟩, ⟨"p2", .keywordOnly, true⟩] ∧
      w₂.arity g₂ = some 1 ∧ (∃ g w, (s.wrap g₂).execute w₂ = (.ok g, w)) ∧
      (t.wrap g₂).execute w₂ = (.error (.validation (.arity 0 1)), w₂) := by
  intro pair fixed w₀ f any s t w₁ g₁ w₂ g₂
  have hinner : (s.wrap f).execute w₀ = (.ok g₁, w₁) := rfl
  have houter : (s.wrap g₁).execute w₁ = (.ok g₂, w₂) := rfl
  have h : Tower f w₀ [⟨s, g₁, g₂⟩, ⟨s, f, g₁⟩] w₂ := .wrap (.wrap .base hinner) houter
  have hf : w₀.parameters f =
      some [⟨"p1", .positional, false⟩, ⟨"p2", .keywordOnly, true⟩] := rfl
  obtain ⟨-, harity, -, -, hwrap⟩ := h.arity_survives hf
  obtain ⟨g, w, hg, -⟩ := (hwrap s).1.mpr rfl
  exact ⟨h, hf, harity, ⟨g, w, hg⟩, (hwrap t).2 (by decide)⟩

end Tower

end TypeGuard
