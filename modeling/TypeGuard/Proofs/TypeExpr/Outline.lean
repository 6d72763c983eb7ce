import TypeGuard.TypeExpr.Listing
import TypeGuard.Proofs.TypeExpr.Expansion

/-! # Outlines

The lines of a listing: those of types, of properties and of arrows. A listing shows a key as it is
and the mark of an optional property behind it, so that it shows a key with its mark as it does a
key that ends in a question mark. Keys may begin with spaces. How far a line is indented tells
something in the lines of types and arrows only.
-/

namespace TypeGuard

/-- The key of a property with its mark, as a listing shows it. -/
def Property.marked {α : Type} (p : Property α) : String :=
  if p.optional then p.key ++ "?" else p.key

theorem Property.toList_marked {α : Type} (p : Property α) :
    p.marked.toList = p.key.toList ++ if p.optional then ['?'] else [] := by
  unfold marked
  split_ifs <;> simp

namespace TypeExpr

/-! ## Marked keys -/

/-- A type with the marks of its properties made part of their keys. -/
def markKeys : TypeExpr → TypeExpr
  | nullable t => nullable t.markKeys
  | array t => array t.markKeys
  | tuple ts => tuple (markAll ts)
  | object ps => object (markProperties ps)
  | union ts => union (markAll ts)
  | intersection ts => intersection (markAll ts)
  | function ps t => function (markAll ps) t.markKeys
  | t => t
termination_by structural t => t
where
  markAll : List TypeExpr → List TypeExpr
    | [] => []
    | t :: ts => t.markKeys :: markAll ts
  termination_by structural ts => ts
  markProperties : List (Property TypeExpr) → List (Property TypeExpr)
    | [] => []
    | ⟨key, optional, value⟩ :: ps =>
      ⟨Property.marked ⟨key, optional, value⟩, false, value.markKeys⟩ :: markProperties ps
  termination_by structural ps => ps

def markProperty (p : Property TypeExpr) : Property TypeExpr :=
  ⟨p.marked, false, p.value.markKeys⟩

theorem markAll_eq_map (ts : List TypeExpr) : markKeys.markAll ts = ts.map markKeys := by
  induction ts with
  | nil => rfl
  | cons t ts ih => rw [markKeys.markAll, ih, List.map_cons]

theorem markProperties_eq_map (ps : List (Property TypeExpr)) :
    markKeys.markProperties ps = ps.map markProperty := by
  induction ps with
  | nil => rfl
  | cons p ps ih => rw [markKeys.markProperties, ih, List.map_cons, markProperty]

theorem markKeys_tuple (ts : List TypeExpr) : (tuple ts).markKeys = tuple (ts.map markKeys) :=
  congrArg tuple (markAll_eq_map ts)

theorem markKeys_object (ps : List (Property TypeExpr)) :
    (object ps).markKeys = object (ps.map markProperty) :=
  congrArg object (markProperties_eq_map ps)

theorem markKeys_union (ts : List TypeExpr) : (union ts).markKeys = union (ts.map markKeys) :=
  congrArg union (markAll_eq_map ts)

theorem markKeys_intersection (ts : List TypeExpr) :
    (intersection ts).markKeys = intersection (ts.map markKeys) :=
  congrArg intersection (markAll_eq_map ts)

theorem markKeys_function (ps : List TypeExpr) (t : TypeExpr) :
    (function ps t).markKeys = function (ps.map markKeys) t.markKeys :=
  congrArg (function · _) (markAll_eq_map ps)

/-! ## Listings -/

theorem listing_ofList (n : ℤ) (ts : List TypeExpr) :
    listing.ofList n ts = ts.flatMap (listing n) := by
  induction ts with
  | nil => rfl
  | cons t ts ih => rw [listing.ofList, ih, List.flatMap_cons]

def propertyListing (n : ℤ) (p : Property TypeExpr) : List (List Char) :=
  indented (n + 1) (p.marked.toList ++ [':']) :: p.value.listing (n + 2)

theorem listing_ofProperties (n : ℤ) (ps : List (Property TypeExpr)) :
    listing.ofProperties n ps = ps.flatMap (propertyListing n) := by
  induction ps with
  | nil => rfl
  | cons p ps ih =>
    rw [listing.ofProperties, ih, List.flatMap_cons, propertyListing, Property.toList_marked]

theorem listing_tuple (n : ℤ) (ts : List TypeExpr) :
    (tuple ts).listing n = indented n (tuple ts).heading :: ts.flatMap (listing (n + 1)) :=
  congrArg (_ :: ·) (listing_ofList (n + 1) ts)

theorem listing_object (n : ℤ) (ps : List (Property TypeExpr)) :
    (object ps).listing n = indented n (object ps).heading :: ps.flatMap (propertyListing n) :=
  congrArg (_ :: ·) (listing_ofProperties n ps)

theorem listing_union (n : ℤ) (ts : List TypeExpr) :
    (union ts).listing n = indented n (union ts).heading :: ts.flatMap (listing (n + 1)) :=
  congrArg (_ :: ·) (listing_ofList (n + 1) ts)

theorem listing_intersection (n : ℤ) (ts : List TypeExpr) :
    (intersection ts).listing n =
      indented n (intersection ts).heading :: ts.flatMap (listing (n + 1)) :=
  congrArg (_ :: ·) (listing_ofList (n + 1) ts)

theorem listing_function (n : ℤ) (ps : List TypeExpr) (t : TypeExpr) :
    (function ps t).listing n = indented n (function ps t).heading ::
      (ps.flatMap (listing (n + 1)) ++ indented (n + 1) ['=', '>'] :: t.listing (n + 2)) := by
  rw [← listing_ofList]
  rfl

theorem exists_listing_eq (n : ℤ) (t : TypeExpr) :
    ∃ ls, t.listing n = indented n t.heading :: ls := by
  cases t <;> exact ⟨_, rfl⟩

/-- A listing shows keys and marks as one. -/
theorem listing_markKeys (t : TypeExpr) : ∀ n : ℤ, t.markKeys.listing n = t.listing n := by
  have hall {ts : List TypeExpr} (ih : ∀ t ∈ ts, ∀ n : ℤ, t.markKeys.listing n = t.listing n)
      (n : ℤ) : (ts.map markKeys).flatMap (listing n) = ts.flatMap (listing n) := by
    rw [List.flatMap_map]
    exact List.flatMap_congr fun t ht => ih t ht n
  induction t using TypeExpr.induction with
  | nullable t ih => exact fun n => congrArg (_ :: ·) (ih (n + 1))
  | array t ih => exact fun n => congrArg (_ :: ·) (ih (n + 1))
  | tuple ts ih =>
    intro n
    rw [markKeys_tuple, listing_tuple, listing_tuple, hall ih]
    rfl
  | object ps ih =>
    intro n
    rw [markKeys_object, listing_object, listing_object, List.flatMap_map]
    refine congrArg (_ :: ·) (List.flatMap_congr fun p hp => ?_)
    exact congrArg (_ :: ·) (ih p hp (n + 2))
  | union ts ih =>
    intro n
    rw [markKeys_union, listing_union, listing_union, hall ih]
    rfl
  | intersection ts ih =>
    intro n
    rw [markKeys_intersection, listing_intersection, listing_intersection, hall ih]
    rfl
  | function ps t ihps iht =>
    intro n
    rw [markKeys_function, listing_function, listing_function, hall ihps, iht]
    rfl
  | _ => exact fun n => rfl

/-! ## The line of a type -/

theorem append_args (name : String) (cs args : List Char) (h : cs = name.toList ++ ['(']) :
    cs ++ args ++ [')'] = name.toList ++ '(' :: (args ++ [')']) := by
  rw [h]
  simp

theorem exists_heading_eq {t : TypeExpr} (ht : t.form ∈ Form.types) :
    ∃ args, t.heading = t.form.name.toList ++ args ∧
      (args = [] ∨ ∃ cs, args = '(' :: (cs ++ [')'])) := by
  cases t with
  | derived className => exact absurd ht (Form.other_not_mem_types className)
  | literal v =>
    exact ⟨_, append_args "LiteralType" "LiteralType(".toList v.display rfl, .inr ⟨_, rfl⟩⟩
  | primitive kind =>
    exact ⟨_, append_args "PrimitiveType" "PrimitiveType(".toList kind.name.toList rfl,
      .inr ⟨_, rfl⟩⟩
  | named name =>
    exact ⟨_, append_args "GenericType" "GenericType(".toList name.toList rfl, .inr ⟨_, rfl⟩⟩
  | _ => exact ⟨[], (List.append_nil _).symm, .inl rfl⟩

theorem Form.isAlpha_name {f : Form} (hf : f ∈ types) : ∀ c ∈ f.name.toList, c.isAlpha = true := by
  have hall : ∀ f ∈ types, f.name.toList.all Char.isAlpha = true := by decide
  exact List.all_eq_true.mp (hall f hf)

theorem Form.name_injOn : ∀ f ∈ types, ∀ g ∈ types, f.name = g.name → f = g := by
  decide

theorem takeWhile_heading {t : TypeExpr} (ht : t.form ∈ Form.types) :
    t.heading.takeWhile Char.isAlpha = t.form.name.toList := by
  obtain ⟨args, hargs, hcases⟩ := exists_heading_eq ht
  rw [hargs, List.takeWhile_append_of_pos (Form.isAlpha_name ht)]
  rcases hcases with rfl | ⟨cs, rfl⟩
  · simp
  · rw [List.takeWhile_cons_of_neg (by decide), List.append_nil]

theorem form_eq_of_heading_eq {t u : TypeExpr} (ht : t.form ∈ Form.types)
    (hu : u.form ∈ Form.types) (h : t.heading = u.heading) : t.form = u.form := by
  apply Form.name_injOn _ ht _ hu
  rw [← String.toList_inj, ← takeWhile_heading ht, h, takeWhile_heading hu]

/-- A line that is neither indented by itself nor that of a property. -/
structure IsOwnLine (l : List Char) : Prop where
  head : ∃ c cs, l = c :: cs ∧ c ≠ ' '
  last : l.getLast? ≠ some ':'

theorem Form.exists_name_eq {f : Form} (hf : f ∈ types) :
    ∃ c cs, f.name.toList = c :: cs ∧ c.isAlpha = true := by
  have hne : ∀ f ∈ types, f.name.toList ≠ [] := by decide
  obtain ⟨c, cs, hname⟩ := List.exists_cons_of_ne_nil (hne f hf)
  exact ⟨c, cs, hname, Form.isAlpha_name hf c (hname ▸ List.mem_cons_self)⟩

theorem isOwnLine_heading {t : TypeExpr} (ht : t.form ∈ Form.types) : IsOwnLine t.heading := by
  obtain ⟨args, hargs, hcases⟩ := exists_heading_eq ht
  obtain ⟨c, cs, hname, hc⟩ := Form.exists_name_eq ht
  constructor
  · refine ⟨c, cs ++ args, by rw [hargs, hname]; rfl, ?_⟩
    rintro rfl
    exact absurd hc (by decide)
  · rw [hargs]
    rcases hcases with rfl | ⟨ds, rfl⟩
    · rw [List.append_nil]
      intro hlast
      have halpha := Form.isAlpha_name ht ':' (List.mem_of_getLast? hlast)
      exact absurd halpha (by decide)
    · simp [List.getLast?_cons]

theorem isOwnLine_arrow : IsOwnLine ['=', '>'] :=
  ⟨⟨'=', ['>'], rfl, by decide⟩, by decide⟩

theorem heading_ne_arrow {t : TypeExpr} (ht : t.form ∈ Form.types) : t.heading ≠ ['=', '>'] := by
  intro h
  have hname := takeWhile_heading ht
  rw [h, List.takeWhile_cons_of_neg (by decide)] at hname
  obtain ⟨c, cs, hcons, -⟩ := Form.exists_name_eq ht
  rw [hcons] at hname
  cases hname

/-! ## Indentation -/

theorem indented_natCast (n : ℕ) (cs : List Char) :
    indented n cs = List.replicate (2 * n) ' ' ++ cs := by
  rw [indented]
  congr 2

theorem indented_inj {n : ℤ} {cs ds : List Char} : indented n cs = indented n ds ↔ cs = ds :=
  List.append_right_inj _

/-- By how much the first line that is not that of a property is indented. -/
def margin : List (List Char) → ℕ
  | [] => 0
  | l :: ls => if l.getLast? = some ':' then margin ls else (l.takeWhile (· = ' ')).length

theorem margin_own {cs : List Char} (h : IsOwnLine cs) (n : ℕ) (ls : List (List Char)) :
    margin (indented n cs :: ls) = 2 * n := by
  obtain ⟨⟨c, cs, rfl, hc⟩, hlast⟩ := h
  rw [indented_natCast, margin, if_neg, List.takeWhile_append_of_pos, List.takeWhile_cons_of_neg,
    List.append_nil, List.length_replicate]
  · simpa using hc
  · intro d hd
    simpa using List.eq_of_mem_replicate hd
  · rwa [List.getLast?_append_of_ne_nil _ (List.cons_ne_nil c cs)]

theorem margin_listing {t : TypeExpr} (ht : t.form ∈ Form.types) (n : ℕ) (ls : List (List Char)) :
    margin (t.listing n ++ ls) = 2 * n := by
  obtain ⟨ks, hks⟩ := t.exists_listing_eq n
  rw [hks, List.cons_append, margin_own (isOwnLine_heading ht)]

theorem margin_propertyListing {p : Property TypeExpr} (hp : p.value.form ∈ Form.types) (n : ℕ)
    (ls : List (List Char)) : margin (propertyListing n p ++ ls) = 2 * (n + 2) := by
  have hkey : (indented (n + 1) (p.marked.toList ++ [':'])).getLast? = some ':' := by
    simp [indented]
  rw [propertyListing, List.cons_append, margin, if_pos hkey]
  exact margin_listing hp (n + 2) ls

/-- Lines that cannot belong to a type at an indentation, nor begin another one there. -/
structure Stops (n : ℕ) (ls : List (List Char)) : Prop where
  margin_le : margin ls ≤ 2 * n
  head_ne : ∀ t : TypeExpr, t.form ∈ Form.types → ls.head? ≠ some (indented n t.heading)

theorem stops_of_margin_le {n : ℕ} {ls : List (List Char)} (h : margin ls ≤ 2 * n) :
    Stops (n + 1) ls := by
  constructor
  · omega
  · intro t hform ht
    obtain ⟨ks, rfl⟩ := List.head?_eq_some_iff.mp ht
    rw [margin_own (isOwnLine_heading hform)] at h
    omega

theorem stops_arrow (n : ℕ) (ls : List (List Char)) : Stops n (indented n ['=', '>'] :: ls) := by
  constructor
  · rw [margin_own isOwnLine_arrow]
  · intro t hform ht
    rw [List.head?_cons, Option.some.injEq, indented_inj] at ht
    exact heading_ne_arrow hform ht.symm

end TypeExpr

end TypeGuard
