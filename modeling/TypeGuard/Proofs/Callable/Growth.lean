import Mathlib
import TypeGuard.Callable.Invoke
import TypeGuard.Proofs.Check.Invariance

/-! # Worlds that grow

A computation ends in a world, with a value or an error. No computation takes a callable object out
of the world or changes one, so that every callable object keeps its meaning in all later worlds.
-/

namespace TypeGuard

namespace Run

variable {α β : Type} {x : Run α} {f : α → Run β} {a : α} {e : Error} {w w' : World}

def execute (x : Run α) (w : World) : Except Error α × World :=
  (ExceptT.run x).run w

@[simp] theorem execute_throw (e : Error) (w : World) :
    execute (throw e : Run α) w = (.error e, w) :=
  rfl

@[simp] theorem execute_ofState (x : StateM World α) (w : World) :
    (ofState x).execute w = (.ok (x w).1, (x w).2) :=
  rfl

@[simp] theorem execute_world (w : World) : world.execute w = (.ok w, w) :=
  rfl

theorem execute_bind_ok (h : x.execute w = (.ok a, w')) :
    (x >>= f).execute w = (f a).execute w' := by
  simp only [execute, ExceptT.run_bind, StateT.run_bind] at h ⊢
  rw [h]
  rfl

theorem execute_bind_error (h : x.execute w = (.error e, w')) :
    (x >>= f).execute w = (.error e, w') := by
  simp only [execute, ExceptT.run_bind, StateT.run_bind] at h ⊢
  rw [h]
  rfl

@[simp] theorem execute_sealed (x : Run α) (w : World) :
    x.sealed.execute w = ((x.execute w).1.mapError Error.sealed, (x.execute w).2) :=
  rfl

end Run

/-- Whatever can be called in one world can be called, under the same number, in another. -/
def World.GrowsTo (w w' : World) : Prop :=
  w.agents <:+ w'.agents

namespace World.GrowsTo

theorem refl (w : World) : w.GrowsTo w :=
  List.suffix_refl _

theorem trans {w₁ w₂ w₃ : World} (h : w₁.GrowsTo w₂) (h' : w₂.GrowsTo w₃) : w₁.GrowsTo w₃ :=
  List.IsSuffix.trans h h'

end World.GrowsTo

def World.Keeps {α : Type} (x : StateM World α) : Prop :=
  ∀ w : World, (x w).2.agents = w.agents

namespace World.Keeps

variable {α β : Type} {x : StateM World α} {f : α → StateM World β}

theorem pure (a : α) : Keeps (Pure.pure a) :=
  fun _ => rfl

theorem bind (hx : Keeps x) (hf : ∀ a, Keeps (f a)) : Keeps (x >>= f) :=
  fun w => (hf _ _).trans (hx w)

theorem get : Keeps MonadState.get :=
  fun _ => rfl

theorem newList (vs : List Value) : Keeps (World.newList vs) :=
  fun _ => rfl

theorem newInstance (c : ClassInfo) (content : Option Value) (attributes : List (String × Value)) :
    Keeps (World.newInstance c content attributes) :=
  fun _ => rfl

end World.Keeps

namespace Run

variable {α β : Type} {x : Run α} {f : α → Run β}

/-- A computation that leaves the callable objects as they are and at most adds to them. -/
def Grows (x : Run α) : Prop :=
  ∀ w : World, w.GrowsTo (x.execute w).2

namespace Grows

theorem pure (a : α) : Grows (Pure.pure a : Run α) :=
  World.GrowsTo.refl

theorem throw (e : Error) : Grows (MonadExcept.throw e : Run α) :=
  World.GrowsTo.refl

theorem bind (hx : Grows x) (hf : ∀ a, Grows (f a)) : Grows (x >>= f) := by
  intro w
  have hx := hx w
  rcases h : x.execute w with ⟨a | a, w'⟩
  · rw [h] at hx
    rw [execute_bind_error h]
    exact hx
  · rw [h] at hx
    rw [execute_bind_ok h]
    exact hx.trans (hf a w')

theorem world : Grows Run.world :=
  World.GrowsTo.refl

theorem ofState {x : StateM World α} (h : World.Keeps x) : Grows (Run.ofState x) := by
  intro w
  rw [execute_ofState, World.GrowsTo, h w]

theorem newAgent (a : Agent) (isMethod : Bool) : Grows (Run.ofState (World.newAgent a isMethod)) :=
  fun _ => List.suffix_cons _ _

theorem ite {p : Prop} [Decidable p] {x y : Run α} (hx : Grows x) (hy : Grows y) :
    Grows (if p then x else y) := by
  split <;> assumption

theorem «sealed» (h : Grows x) : Grows x.sealed := by
  intro w
  rw [execute_sealed]
  exact h w

end Grows

end Run

open Run

/-! ## Checks -/

theorem isInvariant_grows : IsInvariant fun (α : Type) (x : Run α) => Grows x :=
  ⟨Grows.pure, Grows.bind⟩

theorem grows_askCallback {call : Caller} (hcall : ∀ v args, Grows (call v args))
    (callback v : Value) : Grows (askCallback call callback v) := by
  apply Grows.bind (hcall callback _)
  intro answer
  exact .bind .world fun w => .pure _

/-- Reading attributes and telling instances leaves the callable objects as they are and at most adds
to them. -/
structure Hooks.Grow (hooks : Hooks) : Prop where
  attributeOf : ∀ v key, Grows (hooks.attributeOf v key)
  isInstance : ∀ v c, Grows (hooks.isInstance v c)

theorem Hooks.grow_plain : Hooks.plain.Grow :=
  ⟨fun _ _ => .pure _, fun _ _ => .pure _⟩

namespace Check

theorem grows_testWith {hooks : Hooks} (hhooks : hooks.Grow) {call : Caller}
    (hcall : ∀ v args, Grows (call v args)) (c : Check Value) (v : Value) :
    Grows (c.testWith hooks call v) := by
  have hreads : (hooks.surroundings call).Have fun (α : Type) (x : Run α) => Grows x :=
    { length := fun id => .bind .world fun w => .pure _
      item := fun id index => .bind .world fun w => .pure _
      attributeOf := hhooks.attributeOf
      sealed := Grows.sealed }
  exact (spreads_have isInvariant_grows hreads).of_parts (fun c v => hhooks.isInstance v c)
    (grows_askCallback hcall) c v

theorem grows_test {call : Caller} (hcall : ∀ v args, Grows (call v args)) (c : Check Value)
    (v : Value) : Grows (c.test call v) :=
  grows_testWith Hooks.grow_plain hcall c v

end Check

/-! ## Calls -/

theorem grows_checkArguments {ps : List (Gate Run)} (hps : ∀ p ∈ ps, ∀ v, Grows (p.accepts v))
    (index : Nat) (vs : List Value) : Grows (checkArguments index ps vs) := by
  induction ps generalizing index vs with
  | nil => exact .pure ()
  | cons p ps ih =>
    obtain ⟨hp, hps⟩ := List.forall_mem_cons.mp hps
    cases vs with
    | nil => exact .pure ()
    | cons v vs =>
      apply Grows.bind (hp v)
      intro b
      exact .ite (ih hps (index + 1) vs) (.throw _)

theorem grows_guardedCall {ps : List (Gate Run)} {result : Gate Run}
    {f : List Value → Run Value} (hps : ∀ p ∈ ps, ∀ v, Grows (p.accepts v))
    (hresult : ∀ v, Grows (result.accepts v)) (hf : ∀ vs, Grows (f vs)) (args : List Value) :
    Grows (guardedCall ps result f args) := by
  apply Grows.ite
  · exact .throw _
  · apply Grows.bind (grows_checkArguments hps 1 args)
    intro _
    apply Grows.bind (hf args)
    intro v
    apply Grows.bind (hresult v)
    intro b
    exact .ite (.pure v) (.throw _)

theorem Body.grows_run (body : Body) (id : Nat) (args : List Value) : Grows (body.run id args) := by
  cases body with
  | const v => exact .pure v
  | argument index =>
    rw [Body.run]
    split
    · exact .pure _
    · exact .throw _
  | list => exact .ofState (.newList args)
  | count => exact .bind .world fun w => .pure _
  | cycle vs =>
    apply Grows.bind .world
    intro w
    split
    · exact .pure _
    · exact .throw _
  | append index v =>
    rw [Body.run]
    split
    · split
      · apply Grows.bind .world
        intro w
        refine .ite (.bind (.ofState fun w => rfl) fun _ => .pure _) (.throw _)
      · exact .throw _
    · exact .throw _
  | raise kind message => exact .throw _
  | isString => exact .pure _
  | above bound =>
    rw [Body.run.eq_def]
    dsimp only
    split
    · exact .pure _
    · exact .pure _

theorem Function.grows_call (f : Function) (id : Nat) (args : Arguments) :
    Grows (f.call id args) := by
  unfold Function.call
  split
  · exact .throw _
  · apply Grows.bind (.ofState fun w => rfl)
    intro _
    exact f.body.grows_run id _

theorem Signature.grows_wrap (s : Signature Value) (f : Value) : Grows (s.wrap f) := by
  apply Grows.bind .world
  intro w
  split
  · exact .throw _
  · exact .ite (.throw _) (.newAgent _ _)

/-! ### Classes -/

theorem BuiltinClass.keeps_blank (c : BuiltinClass) : World.Keeps c.blank := by
  cases c with
  | list => exact .bind (.newList []) fun v => .pure (some v)
  | _ => exact .pure _

theorem BuiltinClass.keeps_convert (c : BuiltinClass) (v : Value) : World.Keeps (c.convert v) := by
  apply World.Keeps.bind .get
  intro w
  split
  case h_6 =>
    split
    · exact .newList _
    · exact .pure _
  all_goals exact .pure _

theorem ClassInfo.keeps_create (c : ClassInfo) (inherited : List (String × Value))
    (v : Option Value) (own : List (String × Value)) : World.Keeps (c.create inherited v own) := by
  have hrest (content : Option Value) (attributes : List (String × Value)) :
      World.Keeps (c.instantiate content attributes) := by
    rw [ClassInfo.instantiate.eq_def]
    split
    · exact .pure _
    · exact .newInstance _ _ _
  cases v with
  | none => exact .bind c.base.keeps_blank fun content => hrest content _
  | some v =>
    have hcontent : World.Keeps (some <$> c.base.convert v) := by
      rw [← bind_pure_comp]
      exact .bind (c.base.keeps_convert v) fun content => .pure (some content)
    exact .bind hcontent fun content => hrest content _

theorem ClassInfo.grows_build (c : ClassInfo) (inherited : List (String × Value))
    (vs : List (Option Value)) : Grows (c.build inherited vs) := by
  unfold ClassInfo.build
  split
  · split
    · exact .ofState (c.keeps_create inherited _ _)
    · exact .throw _
  · exact .ofState (c.keeps_create inherited _ _)

theorem ClassInfo.grows_construct (c : ClassInfo) (inherited : List (String × Value))
    (args : Arguments) : Grows (c.construct inherited args) := by
  unfold ClassInfo.construct
  split
  · dsimp only
    split
    · exact .throw _
    · exact .ofState (c.keeps_create inherited _ _)
  · split
    · split
      · exact .throw _
      · exact c.grows_build inherited _
    · split
      · exact .ofState (c.keeps_create inherited _ _)
      · exact .ofState (c.keeps_create inherited _ _)
      · exact .throw _

theorem ClassInfo.grows_runPart {agent : Nat → Arguments → Run Value}
    (h : ∀ id args, Grows (agent id args)) (part : Option Nat) (args : Arguments) :
    Grows (runPart agent part args) := by
  cases part with
  | none => exact .pure _
  | some id => exact h id args

theorem ClassInfo.grows_new {agent : Nat → Arguments → Run Value}
    (h : ∀ id args, Grows (agent id args)) (c : ClassInfo) (inherited : List (String × Value))
    (args : Arguments) : Grows (c.new agent inherited args) := by
  apply Grows.bind (grows_runPart h c.makes args)
  intro _
  have hmake : Grows (c.make inherited args) :=
    .ite (c.grows_construct inherited args) (.ofState (c.keeps_create inherited _ _))
  apply Grows.bind hmake
  intro v
  apply Grows.bind (grows_runPart h c.initializes args)
  intro answer
  exact .ite (.pure v) (.throw _)

/-! ### Callable objects -/

theorem Agent.grows_call {call : Caller} (hcall : ∀ v args, Grows (call v args)) (id : Nat)
    (args : Arguments) (a : Agent) : Grows (a.call call id args) := by
  cases a with
  | function f => exact f.grows_call id args
  | application callee fixed keywords attributes => exact hcall callee _
  | predicate p =>
    rw [Agent.call]
    split
    · exact .bind (p.check.grows_test hcall _) fun b => .pure _
    · exact .throw _
  | signature s attributes =>
    rw [Agent.call]
    split
    · exact s.grows_wrap _
    · exact .throw _
  | guard g =>
    rw [Agent.call, Guard.call]
    split
    · apply grows_guardedCall
      · intro p hp v
        obtain ⟨p, -, rfl⟩ := List.mem_map.mp hp
        exact p.check.grows_test hcall v
      · exact g.result.check.grows_test hcall
      · exact fun vs => hcall g.wrapped _
    · exact .throw _

theorem grows_callValue {agent : Nat → Arguments → Run Value}
    (h : ∀ id args, Grows (agent id args)) (v : Value) (args : Arguments) :
    Grows (callValue agent v args) := by
  cases v with
  | agent kind id => exact h id args
  | type c attributes => exact c.grows_new h attributes args
  | inst id c content attributes =>
    rw [callValue]
    split
    · exact h _ args
    · exact .throw _
  | _ => exact .throw _

theorem grows_callAgent (agents : List Agent) (id : Nat) (args : Arguments) :
    Grows (callAgent agents id args) := by
  induction agents generalizing id args with
  | nil => exact .throw _
  | cons a older ih => exact .ite (a.grows_call (grows_callValue ih) id args) (ih id args)

theorem Value.grows_call (v : Value) (args : Arguments) : Grows (v.call args) := by
  apply Grows.bind .world
  intro w
  exact grows_callValue (grows_callAgent w.agents) v args

end TypeGuard
