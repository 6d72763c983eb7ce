import TypeGuard.Check.Compile
import TypeGuard.Proofs.TypeExpr.Subtrees

/-! # Writing types

A type is described by its text, into which the descriptions of its references are put. That fails
where a reference cannot be read or where something that is no text is joined to the texts around
it, and for no other reason.
-/

namespace TypeGuard

namespace TypeExpr

/-- The types whose texts are joined at the root of a type, and how strongly they must bind. -/
def joined : TypeExpr → Level × List TypeExpr
  | nullable t => (.nullable, [t])
  | tuple ts => (.function, ts)
  | union ts => (.intersection, ts)
  | intersection ts => (.nullable, ts)
  | function ps _ => (.function, ps)
  | _ => (.function, [])

/-- The types that are written inside a type. No instance of a derived class is written. -/
def written : TypeExpr → List TypeExpr
  | derived _ _ => []
  | t => t.children

theorem written_subset_children (t : TypeExpr) : t.written ⊆ t.children := by
  cases t with
  | derived => exact List.nil_subset _
  | _ => exact List.Subset.refl _

end TypeExpr

namespace Environment

open TypeExpr

variable {ρ : Type} {env : Environment ρ} {raises : String → Option (ExceptionKind × String)}
  {t : TypeExpr} {e : Error}

theorem readError?_none (env : Environment ρ) (name : String) :
    env.readError? (fun _ => none) name = none := by
  rw [readError?]
  cases env.find? name <;> rfl

theorem joinError?_eq_none_iff {required : Level} {ts : List TypeExpr} :
    env.joinError? required ts = none ↔ ∀ t ∈ ts, env.isText required t = true := by
  simp [joinError?]

theorem writeError?_ofList (env : Environment ρ)
    (raises : String → Option (ExceptionKind × String)) (ts : List TypeExpr) :
    writeError?.ofList env raises ts =
      ts.findSome? fun t => (env.writeError? raises t).map Error.sealed := by
  induction ts with
  | nil => rfl
  | cons t ts ih =>
    rw [writeError?.ofList, ih, List.findSome?_cons]
    cases env.writeError? raises t <;> rfl

theorem writeError?_ofProperties (env : Environment ρ)
    (raises : String → Option (ExceptionKind × String)) (ps : List (Property TypeExpr)) :
    writeError?.ofProperties env raises ps =
      (ps.map Property.value).findSome? (env.writeError? raises) := by
  induction ps with
  | nil => rfl
  | cons p ps ih =>
    rw [writeError?.ofProperties, ih, List.map_cons, List.findSome?_cons]
    cases env.writeError? raises p.value <;> rfl

/-- Nothing goes wrong with what is more than a name if nothing does with what is written inside it
and all that is joined is text. -/
theorem writeError?_eq_none_iff (h : ∀ name, t ≠ named name) :
    env.writeError? raises t = none ↔ (∀ u ∈ t.written, env.writeError? raises u = none) ∧
      ∀ u ∈ t.joined.2, env.isText t.joined.1 u = true := by
  cases t with
  | named name => exact absurd rfl (h name)
  | function ps t =>
    simp only [writeError?, writeError?_ofList, Option.or_eq_none_iff, List.findSome?_eq_none_iff,
      Option.map_eq_none_iff, joinError?_eq_none_iff, written, children, joined,
      List.forall_mem_append, List.forall_mem_singleton]
    exact and_right_comm
  | _ =>
    simp [writeError?, writeError?_ofList, writeError?_ofProperties, joinError?_eq_none_iff, written,
      children, joined]

/-- Whether all that is joined in the description of a type is text. -/
def joinsTexts (env : Environment ρ) (t : TypeExpr) : Bool :=
  (env.writeError? (fun _ => none) t).isNone

theorem joinsTexts_eq_true_iff :
    env.joinsTexts t = true ↔ env.writeError? (fun _ => none) t = none :=
  Option.isNone_iff_eq_none

theorem joinsTexts_named (env : Environment ρ) (name : String) :
    env.joinsTexts (named name) = true :=
  joinsTexts_eq_true_iff.mpr (readError?_none env name)

theorem joinsTexts_iff_written : env.joinsTexts t = true ↔
    (∀ u ∈ t.joined.2, env.isText t.joined.1 u = true) ∧
      ∀ u ∈ t.written, env.joinsTexts u = true := by
  by_cases hnamed : ∃ name, t = named name
  · obtain ⟨name, rfl⟩ := hnamed
    simp [joinsTexts_named, joined, written, children]
  · simp only [joinsTexts_eq_true_iff]
    exact (writeError?_eq_none_iff (not_exists.mp hnamed)).trans and_comm

/-! ## Reasons -/

/-- Why a type cannot be written: something that is joined is no text, or reading a reference raises
an error, which may look like another one once it leaves a generator. -/
inductive CannotWrite (env : Environment ρ) (raises : String → Option (ExceptionKind × String))
    (t : TypeExpr) : Error → Prop
  | misuse : env.joinsTexts t = false → CannotWrite env raises t .misuse
  | read {name e} : named name ∈ t.subtrees → env.readError? raises name = some e →
      CannotWrite env raises t e
  | «sealed» {name e} : named name ∈ t.subtrees → env.readError? raises name = some e →
      CannotWrite env raises t e.sealed

theorem CannotWrite.toSealed (h : CannotWrite env raises t e) :
    CannotWrite env raises t e.sealed := by
  cases h with
  | misuse hjoins => exact .misuse hjoins
  | read hname he => exact .sealed hname he
  | «sealed» hname he =>
    rw [Error.sealed_sealed]
    exact .sealed hname he

theorem CannotWrite.of_written {u : TypeExpr} (h : CannotWrite env raises u e)
    (hu : u ∈ t.written) : CannotWrite env raises t e := by
  have hsubtrees := subtrees_subset_of_mem_children (t.written_subset_children hu)
  cases h with
  | misuse hjoins =>
    refine .misuse (eq_false_of_ne_true fun htexts => ?_)
    rw [(joinsTexts_iff_written.mp htexts).2 u hu] at hjoins
    cases hjoins
  | read hname he => exact .read (hsubtrees hname) he
  | «sealed» hname he => exact .sealed (hsubtrees hname) he

theorem cannotWrite_of_joinError? (h : env.joinError? t.joined.1 t.joined.2 = some e) :
    CannotWrite env raises t e := by
  rw [joinError?] at h
  split_ifs at h with hall
  obtain rfl := Option.some.inj h
  refine .misuse (eq_false_of_ne_true fun htexts => hall ?_)
  exact List.all_eq_true.mpr (joinsTexts_iff_written.mp htexts).1

theorem exists_of_ofList {ts : List TypeExpr} (h : writeError?.ofList env raises ts = some e) :
    ∃ u ∈ ts, ∃ e', env.writeError? raises u = some e' ∧ e'.sealed = e := by
  rw [writeError?_ofList] at h
  obtain ⟨u, hu, h⟩ := List.exists_of_findSome?_eq_some h
  exact ⟨u, hu, Option.map_eq_some_iff.mp h⟩

theorem cannotWrite_of_writeError? (h : env.writeError? raises t = some e) :
    CannotWrite env raises t e := by
  induction t using children_induction generalizing e with
  | h t ih =>
    have hpart {u e} (hu : u ∈ t.written) (he : env.writeError? raises u = some e) :
        CannotWrite env raises t e := (ih u (t.written_subset_children hu) he).of_written hu
    have hlist {ts} (hts : ts ⊆ t.written) (he : writeError?.ofList env raises ts = some e) :
        CannotWrite env raises t e := by
      obtain ⟨u, hu, e', he', rfl⟩ := exists_of_ofList he
      exact (hpart (hts hu) he').toSealed
    cases t with
    | named name => exact .read (mem_subtrees_self _) h
    | nullable t =>
      rcases Option.or_eq_some_iff.mp h with he | ⟨-, he⟩
      · exact hpart List.mem_cons_self he
      · exact cannotWrite_of_joinError? he
    | array t => exact hpart List.mem_cons_self h
    | tuple ts | union ts | intersection ts =>
      rcases Option.or_eq_some_iff.mp h with he | ⟨-, he⟩
      · exact hlist (List.Subset.refl _) he
      · exact cannotWrite_of_joinError? he
    | object ps =>
      rw [writeError?, writeError?_ofProperties] at h
      obtain ⟨u, hu, he⟩ := List.exists_of_findSome?_eq_some h
      exact hpart hu he
    | function ps t =>
      rcases Option.or_eq_some_iff.mp h with he | ⟨-, he⟩
      · rcases Option.or_eq_some_iff.mp he with he | ⟨-, he⟩
        · exact hlist (List.subset_append_left _ _) he
        · exact cannotWrite_of_joinError? he
      · exact hpart (List.mem_append_right _ List.mem_cons_self) he
    | _ => cases h

theorem writeError?_eq_misuse (h : env.joinsTexts t = false) :
    env.writeError? (fun _ => none) t = some .misuse := by
  obtain ⟨e, he⟩ := Option.isSome_iff_exists.mp (Option.isNone_eq_false_iff.mp h)
  cases cannotWrite_of_writeError? he with
  | misuse => exact he
  | read _ hread | «sealed» _ hread =>
    rw [readError?_none] at hread
    cases hread

end Environment

namespace TypeExpr

variable {ρ : Type} {env : Environment ρ} {t : TypeExpr}

theorem describe_named (env : Environment ρ) (name : String) :
    env.describe (named name) =
      .ok ((env.find? name).elim (.text name) Reference.description) := by
  rw [Environment.describe, Environment.describeWith, Environment.writeError?,
    Environment.readError?_none]
  cases env.find? name <;> rfl

theorem describe_of_ne_named (h : ∀ name, t ≠ named name) :
    env.describe t =
      if env.joinsTexts t then .ok (.text (t.textWith env.labels)) else .error .misuse := by
  unfold Environment.describe Environment.describeWith
  cases hjoins : env.joinsTexts t with
  | false =>
    rw [Environment.writeError?_eq_misuse hjoins]
    rfl
  | true =>
    rw [Environment.joinsTexts_eq_true_iff.mp hjoins]
    cases t with
    | named name => exact absurd rfl (h name)
    | _ => rfl

end TypeExpr

theorem Predicate.compile_eq_describe {ρ : Type} (env : Environment ρ) (t : TypeExpr) :
    Predicate.compile env t = (do
      let check ← (t.compile env).mapError Error.definition
      let description ← env.describe t
      return ⟨t, check, description⟩) := rfl

end TypeGuard
