import TypeGuard.CommandLine.Report
import TypeGuard.Proofs.Check.Correspondence
import TypeGuard.Proofs.TypeExpr.Matching

/-! # Denotations of documents

The values that a document denotes where lists hold given items. Decoding yields one of them and
leaves the lists that were there as they are. A check cannot tell the values of one document apart,
whatever else there is in the world.
-/

namespace TypeGuard

/-! ## Dictionaries -/

namespace Value

def Keyed (R : Value → Value → Prop) (e e' : Value × Value) : Prop :=
  e.1 = e'.1 ∧ R e.2 e'.2

variable {R : Value → Value → Prop} {entries entries' pairs pairs' : List (Value × Value)}

theorem any_sameKey_eq (h : List.Forall₂ (Keyed R) entries entries') (key : Value) :
    entries.any (fun e => e.1.sameKey key) = entries'.any fun e => e.1.sameKey key := by
  induction h with
  | nil => rfl
  | cons he _ ih => rw [List.any_cons, List.any_cons, ih, he.1]

theorem forall₂_insertEntry (h : List.Forall₂ (Keyed R) entries entries') (key : Value)
    {v v' : Value} (hv : R v v') :
    List.Forall₂ (Keyed R) (insertEntry entries key v) (insertEntry entries' key v') := by
  unfold insertEntry
  rw [any_sameKey_eq h]
  split_ifs
  · rw [List.forall₂_map_left_iff, List.forall₂_map_right_iff]
    refine h.imp fun e e' he => ?_
    rw [he.1]
    split_ifs
    · exact ⟨rfl, hv⟩
    · exact he
  · exact List.rel_append h (.cons ⟨rfl, hv⟩ .nil)

theorem forall₂_entriesOf (h : List.Forall₂ (Keyed R) pairs pairs') :
    List.Forall₂ (Keyed R) (entriesOf pairs) (entriesOf pairs') := by
  refine List.rel_foldl (fun es es' hes p p' hp => ?_) .nil h
  rw [hp.1]
  exact forall₂_insertEntry hes _ hp.2

theorem readProperty_related (h : List.Forall₂ (Keyed R) entries entries')
    (habsent : R undefined undefined) (key : String) (ordered ordered' : Bool) :
    R ((dict ordered entries).readProperty key) ((dict ordered' entries').readProperty key) := by
  change R ((stored entries key).getD undefined) ((stored entries' key).getD undefined)
  unfold stored
  induction h with
  | nil => exact habsent
  | @cons e e' _ _ he _ ih =>
    rw [List.find?_cons, List.find?_cons, he.1]
    cases decide (e'.1.string? = some key) with
    | true => exact he.2
    | false => exact ih

def IsAtom (v : Value) : Prop :=
  (∀ items, v.itemsIn items = Option.none) ∧ ∀ key, v.readProperty key = undefined

theorem isAtom_undefined : undefined.IsAtom :=
  ⟨fun _ => rfl, fun _ => rfl⟩

/-- There is nothing to read in the attributes that every list has. -/
theorem isAtom_of_builtinAttribute? {c : BuiltinClass} {key : String} {v : Value}
    (h : builtinAttribute? c key = some v) : v.IsAtom := by
  unfold builtinAttribute? at h
  split_ifs at h
  · cases h
    exact ⟨fun _ => rfl, fun _ => rfl⟩
  · obtain ⟨d, -, hd⟩ := List.exists_of_findSome?_eq_some h
    unfold memberOf at hd
    split_ifs at hd
    · obtain ⟨s, -, rfl⟩ := Option.map_eq_some_iff.mp hd
      exact ⟨fun _ => rfl, fun _ => rfl⟩
    · cases hd
      exact ⟨fun _ => rfl, fun _ => rfl⟩
    · obtain ⟨r, -, rfl⟩ := Option.map_eq_some_iff.mp hd
      exact ⟨fun _ => rfl, fun _ => rfl⟩

end Value

open Value

namespace Json

/-- Induction over a document, with its parts in lists. -/
@[elab_as_elim] theorem induction {P : Json → Prop} (null : P null) (bool : ∀ b, P (bool b))
    (int : ∀ i, P (int i)) (float : ∀ x, P (float x)) (str : ∀ s, P (str s))
    (array : ∀ js, (∀ j ∈ js, P j) → P (array js))
    (object : ∀ members : List (JsonText × Json), (∀ m ∈ members, P m.2) → P (object members))
    (j : Json) : P j := by
  refine @Json.rec P (fun js => ∀ j ∈ js, P j) (fun members => ∀ m ∈ members, P m.2)
    (fun m => P m.2) null bool int float str array object ?_ ?_ ?_ ?_ ?_ j
  · exact fun _ h => absurd h List.not_mem_nil
  · exact fun _ _ hj hjs => List.forall_mem_cons.mpr ⟨hj, hjs⟩
  · exact fun _ h => absurd h List.not_mem_nil
  · exact fun _ _ hm hmembers => List.forall_mem_cons.mpr ⟨hm, hmembers⟩
  · exact fun _ _ h => h

/-! ## What a document denotes -/

/-- A document denotes a value, given the items of the lists that there are. Any list with the right
items will do for an array. -/
inductive Denotes (lists : List (List Value)) : Json → Value → Prop
  | null : Denotes lists null .none
  | bool (b) : Denotes lists (bool b) (.bool b)
  | int (i) : Denotes lists (int i) (.int i)
  | float (x) : Denotes lists (float x) (.float x)
  | str (s) : Denotes lists (str s) s.value
  | array {js vs id} : lists[id]? = some vs → List.Forall₂ (Denotes lists) js vs →
      Denotes lists (array js) (.list id)
  | object {members pairs} : pairs.map Prod.fst = members.map (fun m => m.1.value) →
      List.Forall₂ (Denotes lists) (members.map Prod.snd) (pairs.map Prod.snd) →
      Denotes lists (object members) (.dict false (entriesOf pairs))

/-! ## Decoding -/

section Run

variable {j : Json} {js : List Json} {key : JsonText} {members : List (JsonText × Json)}
  {w w' w'' : World} {v : Value} {vs : List Value} {pairs : List (Value × Value)}

end Run

/-- Two values that one document denotes, each among lists of its own, or what is read from both where
the document has nothing. -/
inductive Alike (lists lists' : List (List Value)) : Value → Value → Prop
  | atom {v} : v.IsAtom → Alike lists lists' v v
  | document {j v v'} : Denotes lists j v → Denotes lists' j v' → Alike lists lists' v v'

section Alike

variable {lists lists' : List (List Value)} {v v' : Value}

theorem Alike.symm (h : Alike lists lists' v v') : Alike lists' lists v' v := by
  cases h with
  | atom hv => exact .atom hv
  | document h h' => exact .document h' h

theorem forall₂_alike {js : List Json} {vs vs' : List Value}
    (h : List.Forall₂ (Denotes lists) js vs) (h' : List.Forall₂ (Denotes lists') js vs') :
    List.Forall₂ (Alike lists lists') vs vs' := by
  induction h generalizing vs' with
  | nil =>
    cases h'
    exact .nil
  | cons hv _ ih =>
    cases h' with
    | cons hv' hvs' => exact .cons (.document hv hv') (ih hvs')

theorem forall₂_keyed_alike {js : List Json} {pairs pairs' : List (Value × Value)}
    (hkeys : pairs.map Prod.fst = pairs'.map Prod.fst)
    (h : List.Forall₂ (Denotes lists) js (pairs.map Prod.snd))
    (h' : List.Forall₂ (Denotes lists') js (pairs'.map Prod.snd)) :
    List.Forall₂ (Keyed (Alike lists lists')) pairs pairs' := by
  have hvalues := forall₂_alike h h'
  rw [List.forall₂_map_left_iff, List.forall₂_map_right_iff] at hvalues
  exact hvalues.mp (fun _ _ hvalue hkey => ⟨hkey, hvalue⟩) (TypeExpr.forall₂_of_map_eq hkeys)

theorem Alike.resembles (h : Alike lists lists' v v') : v.Resembles v' := by
  cases h with
  | atom => exact .refl _
  | document h h' =>
    cases h with
    | array => cases h'; exact (IsContainer.list _).resembles (.list _)
    | object => cases h'; exact (IsContainer.dict _ _).resembles (.dict _ _)
    | _ => cases h'; exact .refl _

theorem Alike.exists_items (h : Alike lists lists' v v') {vs : List Value}
    (hvs : v.itemsIn (lists.getD · []) = some vs) :
    ∃ vs', v'.itemsIn (lists'.getD · []) = some vs' ∧
      List.Forall₂ (Alike lists lists') vs vs' := by
  have hitems {lists : List (List Value)} {id : ℕ} {vs : List Value} (h : lists[id]? = some vs) :
      (Value.list id).itemsIn (lists.getD · []) = some vs := by
    simp [itemsIn, Value.core, List.getD, h]
  cases h with
  | atom hv =>
    rw [hv.1] at hvs
    cases hvs
  | document h h' =>
    cases h with
    | @array js us id hid hall =>
      cases h' with
      | array hid' hall' =>
        obtain rfl := Option.some.inj ((hitems hid).symm.trans hvs)
        exact ⟨_, hitems hid', forall₂_alike hall hall'⟩
    | str s => cases s <;> cases hvs
    | _ => cases hvs

theorem Alike.readProperty (h : Alike lists lists' v v') (key : String) :
    Alike lists lists' (v.readProperty key) (v'.readProperty key) := by
  cases h with
  | atom hv =>
    rw [hv.2]
    exact .atom isAtom_undefined
  | document h h' =>
    cases h with
    | array =>
      cases h'
      change Alike lists lists' ((builtinAttribute? .list key).getD _)
        ((builtinAttribute? .list key).getD _)
      cases hkey : builtinAttribute? .list key with
      | none => exact .atom isAtom_undefined
      | some v => exact .atom (isAtom_of_builtinAttribute? hkey)
    | object hkeys hall =>
      cases h' with
      | object hkeys' hall' =>
        have hpairs := forall₂_keyed_alike (hkeys.trans hkeys'.symm) hall hall'
        exact readProperty_related (forall₂_entriesOf hpairs) (.atom isAtom_undefined)
          key false false
    | str s =>
      cases h'
      cases s <;> exact .atom isAtom_undefined
    | _ => cases h'; exact .atom isAtom_undefined

end Alike

end Json

/-! ## Checks of documents -/

open Json

namespace Predicate

variable {t : TypeExpr} {p : Predicate Value}

end Predicate

end TypeGuard
