import TypeGuard.Proofs.Callable.Growth

/-! # The steps of a call

A call of a function under guards is a sequence of steps: the arguments are tested by each guard,
from the outside in; the function runs; and its result is tested from the inside out. The first step
that fails is the last one. The relation `Called` says what becomes of the world and of the call.
-/

namespace TypeGuard

open Run

structure Layer (m : Type → Type) where
  params : List (Gate m)
  result : Gate m

def stackedCall {m : Type → Type} [Monad m] [MonadExceptOf Error m] (f : List Value → m Value) :
    List (Layer m) → List Value → m Value
  | [] => f
  | l :: ls => guardedCall l.params l.result (stackedCall f ls)

/-- What takes place in a call: tests of arguments and of the result, each by the guard of a number,
the innermost being the first, and the invocation of the function. -/
inductive Step where
  | argument (layer index : Nat) (v : Value)
  | invocation (args : List Value)
  | result (layer : Nat) (v : Value)

def Step.isInvocation : Step → Bool
  | invocation _ => true
  | _ => false

/-- A test in a call, and the error that ends the call if the answer is no. -/
structure Trial where
  step : Step
  accepts : Run Bool
  failure : Error

def runTrials : List Trial → Run Unit
  | [] => return ()
  | t :: ts => do if ← t.accepts then runTrials ts else throw t.failure

namespace Layer

/-- The tests of the arguments by the guard of a number, in order, numbered from `index` on. -/
def argumentTrialsFrom (index number : Nat) (ps : List (Gate Run)) (args : List Value) :
    List Trial :=
  ((ps.zip args).zipIdx index).map fun ((p, v), i) =>
    ⟨.argument number i v, p.accepts v, .validation (.argument i p.description v)⟩

/-- The tests of the arguments, by the outermost guard first. -/
def argumentTrials : List (Layer Run) → List Value → List Trial
  | [], _ => []
  | l :: ls, args =>
    argumentTrialsFrom 1 (ls.length + 1) l.params args ++ argumentTrials ls args

/-- The tests of the result, by the innermost guard first. -/
def resultTrials : List (Layer Run) → Value → List Trial
  | [], _ => []
  | l :: ls, v =>
    resultTrials ls v ++ [⟨.result (ls.length + 1) v, l.result.accepts v,
      .validation (.result l.result.description v)⟩]

end Layer

open Layer

theorem runTrials_append (ts us : List Trial) :
    runTrials (ts ++ us) = (do runTrials ts; runTrials us) := by
  induction ts with
  | nil => rw [List.nil_append, runTrials, pure_bind]
  | cons t ts ih =>
    rw [List.cons_append, runTrials, runTrials, ih, bind_assoc]
    apply bind_congr
    intro b
    cases b with
    | false => rfl
    | true => rfl

theorem checkArguments_eq (index number : Nat) (ps : List (Gate Run)) (args : List Value) :
    checkArguments index ps args = runTrials (argumentTrialsFrom index number ps args) := by
  induction ps generalizing index args with
  | nil => rfl
  | cons p ps ih =>
    cases args with
    | nil => rfl
    | cons v vs =>
      rw [checkArguments, ih]
      rfl

theorem checkResult_eq (number : Nat) (p : Gate Run) (v : Value) :
    checkResult p v = (do
      runTrials [⟨.result number v, p.accepts v, .validation (.result p.description v)⟩]
      return v) := by
  rw [checkResult, runTrials, bind_assoc]
  apply bind_congr
  intro b
  cases b with
  | false => rfl
  | true => rfl

/-- Arguments of the right number are tested by all guards from the outside in, then the function
runs, then its result is tested from the inside out. -/
theorem stackedCall_eq (f : List Value → Run Value) {ls : List (Layer Run)} {args : List Value}
    (h : ∀ l ∈ ls, l.params.length = args.length) :
    stackedCall f ls args = (do
      runTrials (argumentTrials ls args)
      let v ← f args
      runTrials (resultTrials ls v)
      return v) := by
  induction ls with
  | nil =>
    rw [stackedCall, argumentTrials, runTrials, pure_bind]
    simp only [resultTrials, runTrials, pure_bind, bind_pure]
  | cons l ls ih =>
    obtain ⟨hl, hls⟩ := List.forall_mem_cons.mp h
    rw [stackedCall, guardedCall, if_neg (not_not.mpr hl.symm), ih hls,
      checkArguments_eq 1 (ls.length + 1), argumentTrials, runTrials_append]
    simp only [checkResult_eq (ls.length + 1), resultTrials, runTrials_append, bind_assoc,
      pure_bind]

/-- Tests in a world: the steps taken, how they end, and the world after them. -/
inductive Tried : List Trial → World → List Step → Except Error Unit → World → Prop
  | none {w} : Tried [] w [] (.ok ()) w
  | accepted {t ts w w₁ steps r w'} : t.accepts.execute w = (.ok true, w₁) →
      Tried ts w₁ steps r w' → Tried (t :: ts) w (t.step :: steps) r w'
  | rejected {t ts w w'} : t.accepts.execute w = (.ok false, w') →
      Tried (t :: ts) w [t.step] (.error t.failure) w'
  | raised {t ts w w' e} : t.accepts.execute w = (.error e, w') →
      Tried (t :: ts) w [t.step] (.error e) w'

theorem exists_tried (ts : List Trial) (w : World) :
    ∃ steps, Tried ts w steps ((runTrials ts).execute w).1 ((runTrials ts).execute w).2 := by
  induction ts generalizing w with
  | nil => exact ⟨[], .none⟩
  | cons t ts ih =>
    rw [runTrials]
    rcases h : t.accepts.execute w with ⟨e | b, w'⟩
    · rw [execute_bind_error h]
      exact ⟨_, .raised h⟩
    · rw [execute_bind_ok h]
      cases b with
      | false => exact ⟨_, .rejected h⟩
      | true =>
        obtain ⟨steps, hsteps⟩ := ih w'
        exact ⟨_, .accepted h hsteps⟩

theorem Tried.steps_prefix {ts : List Trial} {w w' : World} {steps : List Step}
    {r : Except Error Unit} (h : Tried ts w steps r w') :
    steps <+: ts.map Trial.step ∧ (r = .ok () → steps = ts.map Trial.step) := by
  induction h with
  | none => exact ⟨List.prefix_rfl, fun _ => rfl⟩
  | accepted _ _ ih =>
    refine ⟨List.prefix_cons_inj _ |>.mpr ih.1, ?_⟩
    intro hr
    rw [List.map_cons, ih.2 hr]
  | rejected | raised => exact ⟨by simp, by simp⟩

/-- A call under guards of `n` parameters each, the outermost first: the steps taken, how the call
ends, and the world after it. -/
inductive Called (n : Nat) (ls : List (Layer Run)) (f : List Value → Run Value)
    (args : List Value) (w : World) : List Step → Except Error Value → World → Prop
  | miscounted : args.length ≠ n →
      Called n ls f args w [] (.error (.validation (.argumentCount n args.length))) w
  | refused {steps e w'} : args.length = n →
      Tried (argumentTrials ls args) w steps (.error e) w' →
      Called n ls f args w steps (.error e) w'
  | raised {steps w₁ e w'} : args.length = n →
      Tried (argumentTrials ls args) w steps (.ok ()) w₁ → (f args).execute w₁ = (.error e, w') →
      Called n ls f args w (steps ++ [.invocation args]) (.error e) w'
  | broken {steps w₁ v w₂ steps' e w'} : args.length = n →
      Tried (argumentTrials ls args) w steps (.ok ()) w₁ → (f args).execute w₁ = (.ok v, w₂) →
      Tried (resultTrials ls v) w₂ steps' (.error e) w' →
      Called n ls f args w (steps ++ .invocation args :: steps') (.error e) w'
  | returned {steps w₁ v w₂ steps' w'} : args.length = n →
      Tried (argumentTrials ls args) w steps (.ok ()) w₁ → (f args).execute w₁ = (.ok v, w₂) →
      Tried (resultTrials ls v) w₂ steps' (.ok ()) w' →
      Called n ls f args w (steps ++ .invocation args :: steps') (.ok v) w'

def admits (n : Nat) (ls : List (Layer Run)) (args : List Value) (w : World) : Bool :=
  decide (args.length = n) && ((runTrials (argumentTrials ls args)).execute w).1.isOk

theorem exists_called {n : Nat} {l : Layer Run} {ls : List (Layer Run)}
    (h : ∀ l' ∈ l :: ls, l'.params.length = n) (f : List Value → Run Value) (args : List Value)
    (w : World) :
    ∃ steps, Called n (l :: ls) f args w steps ((stackedCall f (l :: ls) args).execute w).1
      ((stackedCall f (l :: ls) args).execute w).2 := by
  by_cases hargs : args.length = n
  · subst hargs
    rw [stackedCall_eq f h]
    obtain ⟨steps, htried⟩ := exists_tried (argumentTrials (l :: ls) args) w
    rcases htrials : (runTrials (argumentTrials (l :: ls) args)).execute w with ⟨e | _, w₁⟩
    · rw [htrials] at htried
      rw [execute_bind_error htrials]
      exact ⟨_, .refused rfl htried⟩
    rw [htrials] at htried
    rw [execute_bind_ok htrials]
    rcases hf : (f args).execute w₁ with ⟨e | v, w₂⟩
    · rw [execute_bind_error hf]
      exact ⟨_, .raised rfl htried hf⟩
    rw [execute_bind_ok hf]
    obtain ⟨steps', htried'⟩ := exists_tried (resultTrials (l :: ls) v) w₂
    rcases hresult : (runTrials (resultTrials (l :: ls) v)).execute w₂ with ⟨e | _, w'⟩
    · rw [hresult] at htried'
      rw [execute_bind_error hresult]
      exact ⟨_, .broken rfl htried hf htried'⟩
    · rw [hresult] at htried'
      rw [execute_bind_ok hresult]
      exact ⟨_, .returned rfl htried hf htried'⟩
  · have hl : args.length ≠ l.params.length := by rwa [h l List.mem_cons_self]
    rw [stackedCall, guardedCall, if_pos hl, h l List.mem_cons_self]
    exact ⟨[], .miscounted hargs⟩

theorem Tried.runTrials_eq {ts : List Trial} {w w' : World} {steps : List Step}
    {r : Except Error Unit} (h : Tried ts w steps r w') : (runTrials ts).execute w = (r, w') := by
  induction h with
  | none => rfl
  | accepted h _ ih => rw [runTrials, execute_bind_ok h, if_pos rfl, ih]
  | rejected h => rw [runTrials, execute_bind_ok h, if_neg Bool.false_ne_true, execute_throw]
  | raised h => rw [runTrials, execute_bind_error h]

theorem exists_of_mem_argumentTrials {ls : List (Layer Run)} {args : List Value} {t : Trial}
    (h : t ∈ argumentTrials ls args) :
    ∃ (number index : Nat) (p : Gate Run) (v : Value), t =
      ⟨.argument number index v, p.accepts v, .validation (.argument index p.description v)⟩ := by
  induction ls with
  | nil => exact absurd h List.not_mem_nil
  | cons l ls ih =>
    rcases List.mem_append.mp h with h | h
    · obtain ⟨⟨⟨p, v⟩, index⟩, -, rfl⟩ := List.mem_map.mp h
      exact ⟨_, index, p, v, rfl⟩
    · exact ih h

theorem exists_of_mem_resultTrials {ls : List (Layer Run)} {v : Value} {t : Trial}
    (h : t ∈ resultTrials ls v) :
    ∃ (number : Nat) (p : Gate Run), t =
      ⟨.result number v, p.accepts v, .validation (.result p.description v)⟩ := by
  induction ls with
  | nil => exact absurd h List.not_mem_nil
  | cons l ls ih =>
    rcases List.mem_append.mp h with h | h
    · exact ih h
    · exact ⟨_, l.result, List.mem_singleton.mp h⟩

theorem isInvocation_argumentTrials (ls : List (Layer Run)) (args : List Value) :
    ∀ t ∈ argumentTrials ls args, t.step.isInvocation = false := by
  intro t ht
  obtain ⟨_, _, _, _, rfl⟩ := exists_of_mem_argumentTrials ht
  rfl

theorem isInvocation_resultTrials (ls : List (Layer Run)) (v : Value) :
    ∀ t ∈ resultTrials ls v, t.step.isInvocation = false := by
  intro t ht
  obtain ⟨_, _, rfl⟩ := exists_of_mem_resultTrials ht
  rfl

theorem Tried.invocations {ts : List Trial} {w w' : World} {steps : List Step}
    {r : Except Error Unit} (h : Tried ts w steps r w')
    (hts : ∀ t ∈ ts, t.step.isInvocation = false) : steps.countP Step.isInvocation = 0 := by
  rw [List.countP_eq_zero]
  intro step hstep
  obtain ⟨t, ht, rfl⟩ := List.mem_map.mp (h.steps_prefix.1.subset hstep)
  simp [hts t ht]

/-- The function runs once if the arguments pass all tests, and otherwise not at all. -/
theorem Called.invocations {n : Nat} {ls : List (Layer Run)} {f : List Value → Run Value}
    {args : List Value} {w w' : World} {steps : List Step} {r : Except Error Value}
    (h : Called n ls f args w steps r w') :
    steps.countP Step.isInvocation = (admits n ls args w).toNat := by
  cases h with
  | miscounted h => simp [admits, h]
  | refused hargs h =>
    rw [h.invocations (isInvocation_argumentTrials ls args), admits, h.runTrials_eq]
    simp [Except.isOk, Except.toBool]
  | raised hargs h =>
    rw [List.countP_append, h.invocations (isInvocation_argumentTrials ls args), admits,
      h.runTrials_eq, hargs]
    simp [Except.isOk, Except.toBool, Step.isInvocation]
  | broken hargs h _ h' | returned hargs h _ h' =>
    rw [List.countP_append, List.countP_cons, h.invocations (isInvocation_argumentTrials ls args),
      h'.invocations (isInvocation_resultTrials ls _), admits, h.runTrials_eq, hargs]
    simp [Except.isOk, Except.toBool, Step.isInvocation]

/-! ## Where errors come from -/

/-- An error that a test or the function itself ends in, in some world. -/
def RaisedWithin (ls : List (Layer Run)) (f : List Value → Run Value) (args : List Value)
    (e : Error) : Prop :=
  (∃ t, (t ∈ argumentTrials ls args ∨ ∃ v, t ∈ resultTrials ls v) ∧
    ∃ w w', t.accepts.execute w = (.error e, w')) ∨
  ∃ w w', (f args).execute w = (.error e, w')

theorem Tried.error {ts : List Trial} {w w' : World} {steps : List Step} {r : Except Error Unit}
    (h : Tried ts w steps r w') {e : Error} (hr : r = .error e) :
    ∃ t ∈ ts, t.failure = e ∨ ∃ w w', t.accepts.execute w = (.error e, w') := by
  induction h with
  | none => cases hr
  | accepted _ _ ih =>
    obtain ⟨t, ht, h⟩ := ih hr
    exact ⟨t, List.mem_cons_of_mem _ ht, h⟩
  | rejected h =>
    cases hr
    exact ⟨_, List.mem_cons_self, .inl rfl⟩
  | raised h =>
    cases hr
    exact ⟨_, List.mem_cons_self, .inr ⟨_, _, h⟩⟩

theorem failure_argumentTrials {ls : List (Layer Run)} {args : List Value} {t : Trial}
    (h : t ∈ argumentTrials ls args) (i j : Nat) :
    t.failure ≠ .validation (.argumentCount i j) := by
  obtain ⟨_, _, _, _, rfl⟩ := exists_of_mem_argumentTrials h
  rintro ⟨⟩

theorem failure_resultTrials {ls : List (Layer Run)} {v : Value} {t : Trial}
    (h : t ∈ resultTrials ls v) (i j : Nat) :
    t.failure ≠ .validation (.argumentCount i j) := by
  obtain ⟨_, _, rfl⟩ := exists_of_mem_resultTrials h
  rintro ⟨⟩

section Called

variable {n : Nat} {ls : List (Layer Run)} {f : List Value → Run Value} {args : List Value}
  {w w' : World} {steps : List Step} {r : Except Error Value}

/-- Arguments are counted once, by the outermost guard. -/
theorem Called.argumentCount (h : Called n ls f args w steps r w') {i j : Nat}
    (hr : r = .error (.validation (.argumentCount i j))) :
    args.length ≠ n ∧ i = n ∧ j = args.length ∧ steps = [] ∨
      RaisedWithin ls f args (.validation (.argumentCount i j)) := by
  cases h with
  | miscounted h =>
    cases hr
    exact .inl ⟨h, rfl, rfl, rfl⟩
  | refused _ h =>
    cases hr
    obtain ⟨t, ht, hfailure | hraised⟩ := h.error rfl
    · exact absurd hfailure (failure_argumentTrials ht i j)
    · exact .inr (.inl ⟨t, .inl ht, hraised⟩)
  | raised _ _ h =>
    cases hr
    exact .inr (.inr ⟨_, _, h⟩)
  | broken _ _ _ h =>
    cases hr
    obtain ⟨t, ht, hfailure | hraised⟩ := h.error rfl
    · exact absurd hfailure (failure_resultTrials ht i j)
    · exact .inr (.inl ⟨t, .inr ⟨_, ht⟩, hraised⟩)
  | returned => cases hr

theorem Called.result (h : Called n ls f args w steps r w') {v : Value} (hr : r = .ok v) :
    ∃ w₁ w₂, (f args).execute w₁ = (.ok v, w₂) := by
  cases h with
  | returned _ _ h _ =>
    cases hr
    exact ⟨_, _, h⟩
  | _ => cases hr

end Called

end TypeGuard
