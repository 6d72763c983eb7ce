import TypeGuard.Proofs.Check.Compilation
import TypeGuard.Proofs.TypeExpr.Frame
import TypeGuard.Proofs.TypeExpr.Subtrees

/-! # Names in descriptions and in checks

A name that is bound to a reference is written as the reference, at every place of a type. The check
of the type asks the reference there, unless the name is one of the fixed names: these are checked
as such and still written as what they are bound to.
-/

namespace TypeGuard

/-! ## Places in a check -/

namespace Check

variable {ρ : Type}

inductive Frame (ρ : Type) where
  | nullable
  | array
  | tuple (before after : List (Check ρ))
  | object (before : List (String × Check ρ)) (key : String) (after : List (String × Check ρ))
  | union (before after : List (Check ρ))
  | intersection (before after : List (Check ρ))

def Frame.fill : Frame ρ → Check ρ → Check ρ
  | nullable, c => .nullable c
  | array, c => .array c
  | tuple before after, c => .tuple (before ++ c :: after)
  | object before key after, c => .object (before ++ (key, c) :: after)
  | union before after, c => .union (before ++ c :: after)
  | intersection before after, c => .intersection (before ++ c :: after)

def fill (frames : List (Frame ρ)) (c : Check ρ) : Check ρ :=
  frames.foldr Frame.fill c

theorem Frame.fill_injective (g : Frame ρ) : Function.Injective g.fill := by
  intro c d h
  cases g <;> simpa [fill] using h

theorem fill_injective (frames : List (Frame ρ)) : Function.Injective (fill frames) := by
  induction frames with
  | nil => exact fun _ _ h => h
  | cons g frames ih => exact g.fill_injective.comp ih

end Check

theorem Reference.check_eq_ok_iff {ρ : Type} {r : Reference ρ} {name : String} {c : Check ρ}
    (hclass : ∀ k, c ≠ .instanceOf k) (hcallback : ∀ f, c ≠ .callback f) :
    r.check name = .ok c ↔ r.target = .predicate c := by
  obtain ⟨target, _, _⟩ := r
  cases target with
  | predicate d => simp [check]
  | «class» k => simpa [check] using (hclass k).symm
  | callback f => simpa [check] using (hcallback f).symm
  | invalid className => simp [check]

namespace TypeExpr

variable {ρ : Type} {env : Environment ρ}

theorem Frame.compile_fill (f : Frame) {t : TypeExpr} {c : Check ρ}
    (h : (f.fill t).compile env = .ok c) :
    ∃ (g : Check.Frame ρ) (d : Check ρ), c = g.fill d ∧ t.compile env = .ok d ∧
      ∀ u e, u.compile env = .ok e → (f.fill u).compile env = .ok (g.fill e) := by
  cases f with
  | nullable =>
    obtain ⟨d, hd, rfl⟩ := bind_pure_eq_ok_iff.mp h
    exact ⟨.nullable, d, rfl, hd, fun u e he => bind_pure_eq_ok_iff.mpr ⟨e, he, rfl⟩⟩
  | array =>
    obtain ⟨d, hd, rfl⟩ := bind_pure_eq_ok_iff.mp h
    exact ⟨.array, d, rfl, hd, fun u e he => bind_pure_eq_ok_iff.mpr ⟨e, he, rfl⟩⟩
  | tuple =>
    obtain ⟨cs, hcs, rfl⟩ := bind_pure_eq_ok_iff.mp h
    obtain ⟨before, d, after, rfl, hd, haround⟩ := compileAll_around hcs
    exact ⟨.tuple before after, d, rfl, hd,
      fun u e he => bind_pure_eq_ok_iff.mpr ⟨_, haround u e he, rfl⟩⟩
  | object before key optional after =>
    obtain ⟨before, d, after, rfl, hd, haround⟩ := compile_object_around h
    exact ⟨.object before key after, d, rfl, hd, haround⟩
  | union =>
    obtain ⟨cs, hcs, rfl⟩ := bind_pure_eq_ok_iff.mp h
    obtain ⟨before, d, after, rfl, hd, haround⟩ := compileAll_around hcs
    exact ⟨.union before after, d, rfl, hd,
      fun u e he => bind_pure_eq_ok_iff.mpr ⟨_, haround u e he, rfl⟩⟩
  | intersection =>
    obtain ⟨cs, hcs, rfl⟩ := bind_pure_eq_ok_iff.mp h
    obtain ⟨before, d, after, rfl, hd, haround⟩ := compileAll_around hcs
    exact ⟨.intersection before after, d, rfl, hd,
      fun u e he => bind_pure_eq_ok_iff.mpr ⟨_, haround u e he, rfl⟩⟩

theorem compile_fill (frames : List Frame) {t : TypeExpr} {c : Check ρ}
    (h : (fill frames t).compile env = .ok c) :
    ∃ (around : List (Check.Frame ρ)) (d : Check ρ), c = Check.fill around d ∧
      t.compile env = .ok d ∧
      ∀ u e, u.compile env = .ok e → (fill frames u).compile env = .ok (Check.fill around e) := by
  induction frames generalizing c with
  | nil => exact ⟨[], c, rfl, h, fun u e he => he⟩
  | cons f frames ih =>
    obtain ⟨g, d, rfl, hd, hframe⟩ := f.compile_fill h
    obtain ⟨around, e, rfl, he, haround⟩ := ih hd
    exact ⟨g :: around, e, rfl, he, fun u e he => hframe _ _ (haround u e he)⟩

theorem exists_frame {t u : TypeExpr} {c : Check ρ} (h : t.compile env = .ok c)
    (hu : u ∈ t.children) : ∃ f : Frame, f.fill u = t := by
  cases t with
  | nullable | array =>
    obtain rfl := List.mem_singleton.mp hu
    first | exact ⟨.nullable, rfl⟩ | exact ⟨.array, rfl⟩
  | tuple ts =>
    obtain ⟨before, after, rfl⟩ := List.append_of_mem hu
    exact ⟨.tuple before after, rfl⟩
  | object ps =>
    obtain ⟨p, hp, rfl⟩ := List.mem_map.mp hu
    obtain ⟨before, after, rfl⟩ := List.append_of_mem hp
    exact ⟨.object before p.key p.optional after, rfl⟩
  | union ts =>
    obtain ⟨before, after, rfl⟩ := List.append_of_mem hu
    exact ⟨.union before after, rfl⟩
  | intersection ts =>
    obtain ⟨before, after, rfl⟩ := List.append_of_mem hu
    exact ⟨.intersection before after, rfl⟩
  | function | derived => cases h
  | _ => exact absurd hu List.not_mem_nil

theorem exists_frames (t : TypeExpr) :
    ∀ c : Check ρ, t.compile env = .ok c → ∀ u ∈ t.subtrees, ∃ frames, fill frames u = t := by
  induction t using children_induction with
  | h t ih =>
    intro c hc u hu
    rw [subtrees_eq_children] at hu
    rcases List.mem_cons.mp hu with rfl | hu
    · exact ⟨[], rfl⟩
    · obtain ⟨v, hv, huv⟩ := List.mem_flatMap.mp hu
      obtain ⟨f, rfl⟩ := exists_frame hc hv
      obtain ⟨_, d, -, hd, -⟩ := f.compile_fill hc
      obtain ⟨frames, rfl⟩ := ih v hv d hd u huv
      exact ⟨f :: frames, rfl⟩

/-! ## Names -/

theorem compileName_of_find?_eq_none {name : String} (h : env.find? name = none) :
    compileName env name = compileName ([] : Environment ρ) name := by
  unfold compileName
  rw [h]
  rfl

/-- A reference decides what its name tests exactly if the name is not a fixed one, or the reference
tests just what the fixed name stands for. -/
theorem check_eq_iff_of_compileName {name : String} {r : Reference ρ} {c : Check ρ}
    (hr : env.find? name = some r) (hc : compileName env name = .ok c) :
    r.check name = .ok c ↔
      (name = "Function" → r.target = .predicate .callable) ∧
      (name = "Object" → r.target = .predicate .structured) := by
  unfold compileName at hc
  rw [hr] at hc
  split_ifs at hc with hfunction hobject
  · obtain rfl := Except.ok.inj hc
    rw [Reference.check_eq_ok_iff (by simp) (by simp)]
    simp [hfunction]
  · obtain rfl := Except.ok.inj hc
    rw [Reference.check_eq_ok_iff (by simp) (by simp)]
    simp [hobject]
  · exact iff_of_true hc ⟨fun h => absurd h hfunction, fun h => absurd h hobject⟩

theorem render_named (name : String) (level : Level) :
    (named name).render env.labels level =
      match env.find? name with
      | some r => parenthesize r.level level r.description.shown.toList
      | none => name.toList := by
  change renderName env.labels level name = _
  unfold renderName Environment.labels
  cases env.find? name <;> rfl

theorem shown_of_describe {t : TypeExpr} {d : Description} (h : env.describe t = .ok d) :
    d.shown.toList = t.render env.labels .function := by
  by_cases hnamed : ∃ name, t = named name
  · obtain ⟨name, rfl⟩ := hnamed
    rw [describe_named] at h
    obtain rfl := Except.ok.inj h
    rw [render_named]
    cases env.find? name with
    | none => rfl
    | some r => exact (parenthesize_function _ _).symm
  · rw [describe_of_ne_named fun name ht => hnamed ⟨name, ht⟩] at h
    split_ifs at h
    obtain rfl := Except.ok.inj h
    exact String.toList_ofList

end TypeExpr

open TypeExpr

namespace Predicate

variable {ρ : Type} {env : Environment ρ} {t : TypeExpr} {p : Predicate ρ} {frames : List Frame}

/-- The description has the text at the place, between texts that do not depend on what stands
there. -/
def Shows (p : Predicate ρ) (env : Environment ρ) (frames : List Frame) (text : List Char) : Prop :=
  ∃ before after, p.description.shown.toList = before ++ text ++ after ∧
    ∀ t, (fill frames t).render env.labels .function =
      before ++ t.render env.labels (levelAt .function frames) ++ after

/-- The check has the given one at the place, inside of checks that do not depend on what stands
there. -/
def Tests (p : Predicate ρ) (env : Environment ρ) (frames : List Frame) (check : Check ρ) : Prop :=
  ∃ around, p.check = Check.fill around check ∧
    ∀ t c, t.compile env = .ok c → (fill frames t).compile env = .ok (Check.fill around c)

theorem shows_of_compile (h : Predicate.compile env (fill frames t) = .ok p) :
    p.Shows env frames (t.render env.labels (levelAt .function frames)) := by
  obtain ⟨before, after, haround⟩ := encloses_render_fill env.labels frames .function
  refine ⟨before, after, ?_, haround⟩
  rw [shown_of_describe (of_compile_eq_ok h).2]
  exact haround t

/-- Where a type compiles, its check is what is tested at its place. -/
theorem tests_iff_compile (h : Predicate.compile env (fill frames t) = .ok p) {check : Check ρ} :
    p.Tests env frames check ↔ t.compile env = .ok check := by
  obtain ⟨around, c, hcheck, hc, haround⟩ := compile_fill frames (of_compile_eq_ok h).1
  constructor
  · rintro ⟨around', hcheck', haround'⟩
    have hsame : Check.fill around' c = Check.fill around' check := by
      rw [← hcheck', hcheck]
      exact Except.ok.inj ((haround' t c hc).symm.trans (haround t c hc))
    rw [← Check.fill_injective around' hsame, hc]
  · intro ht
    obtain rfl := Except.ok.inj (hc.symm.trans ht)
    exact ⟨around, hcheck, haround⟩

theorem exists_tests (h : Predicate.compile env (fill frames t) = .ok p) :
    ∃ check, p.Tests env frames check := by
  obtain ⟨around, c, hcheck, -, haround⟩ := compile_fill frames (of_compile_eq_ok h).1
  exact ⟨c, around, hcheck, haround⟩

theorem tests_unique (h : Predicate.compile env (fill frames t) = .ok p) {c d : Check ρ}
    (hc : p.Tests env frames c) (hd : p.Tests env frames d) : c = d :=
  Except.ok.inj (((tests_iff_compile h).mp hc).symm.trans ((tests_iff_compile h).mp hd))

/-- At every place of a type that compiles, a name that has a reference is written as its
reference. The check there is the reference's own exactly if the name is not a fixed one, or the
reference happens to test just what the fixed name stands for. A name without a reference is written
as it is and checked as it is where there are no references. -/
theorem shows_and_tests_names (h : Predicate.compile env t = .ok p) :
    (∀ u ∈ t.subtrees, ∃ frames, fill frames u = t) ∧
    ∀ frames name, fill frames (.named name) = t →
      (∀ r, env.find? name = some r →
        p.Shows env frames
          (parenthesize r.level (levelAt .function frames) r.description.shown.toList) ∧
        ((∃ c, r.check name = .ok c ∧ p.Tests env frames c) ↔
          (name = "Function" → r.target = .predicate .callable) ∧
          (name = "Object" → r.target = .predicate .structured))) ∧
      (env.find? name = none →
        p.Shows env frames name.toList ∧
        ∃ c, compileName ([] : Environment ρ) name = .ok c ∧ p.Tests env frames c) := by
  refine ⟨exists_frames t p.check (of_compile_eq_ok h).1, ?_⟩
  rintro frames name rfl
  have hshows := shows_of_compile h
  rw [render_named] at hshows
  obtain ⟨check, hcheck⟩ := exists_tests h
  have hname : compileName env name = .ok check := (tests_iff_compile h).mp hcheck
  refine ⟨fun r hr => ?_, fun hnone => ?_⟩
  · rw [hr] at hshows
    refine ⟨hshows, ?_⟩
    rw [← check_eq_iff_of_compileName hr hname]
    constructor
    · rintro ⟨c, hc, hct⟩
      rwa [tests_unique h hcheck hct]
    · exact fun hc => ⟨check, hc, hcheck⟩
  · rw [hnone] at hshows
    exact ⟨hshows, check, compileName_of_find?_eq_none hnone ▸ hname, hcheck⟩

/-- A class under a fixed name is written in the description and asked nowhere. -/
theorem shows_class_at_fixed_name :
    let dict : Reference Value := ⟨.class (.ofBuiltin .dict), .text "dict", .primary⟩
    let env : Environment Value := [("Function", dict)]
    let p : Predicate Value := ⟨.array (.named "Function"), .array .callable, .text "Array<dict>"⟩
    Predicate.compile env p.node = .ok p ∧ p.Shows env [.array] "dict".toList ∧
      ¬ ∃ c, dict.check "Function" = .ok c ∧ p.Tests env [.array] c := by
  intro dict env p
  have hdescribe : env.describe p.node = .ok p.description := by
    rw [describe_of_ne_named (by simp [p])]
    have htext : p.node.textWith env.labels = "Array<dict>" := by decide +kernel
    rw [htext]
    rfl
  have hp : Predicate.compile env p.node = .ok p := compile_eq_ok rfl hdescribe
  obtain ⟨hshows, htests⟩ := ((shows_and_tests_names hp).2 [.array] "Function" rfl).1 dict rfl
  exact ⟨hp, hshows, fun h => nomatch (htests.mp h).1 rfl⟩

end Predicate

end TypeGuard
